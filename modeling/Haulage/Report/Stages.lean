/-
# Stages

A computation that may fail is tried in stages: the first stage that has a value decides, and every
stage that was tried leaves an attempt behind, with its value or with what went wrong.
-/

namespace Haulage

/-- A stage that was tried: its value, or in words what went wrong. -/
structure Attempt (ν α : Type) where
  stage : ν
  outcome : Except String α

/-- What came of a row of stages. -/
structure Trial (ν α : Type) where
  /-- The stage that decided and its value, if one did. -/
  decision : Option (ν × α)
  attempts : List (Attempt ν α)

variable {ν α : Type}

/-- Did the stage have a value? -/
def Attempt.succeeded (a : Attempt ν α) : Bool := a.outcome.isOk

/-- What went wrong, if anything. -/
def Attempt.error? (a : Attempt ν α) : Option String :=
  match a.outcome with
  | .ok _ => none
  | .error e => some e

/-- The value of the stage, if it had one. -/
def Attempt.value? (a : Attempt ν α) : Option α := a.outcome.toOption

/-- The stages tried in order up to the first that has a value. -/
def runStages : List (ν × (Unit → Except String α)) → Trial ν α
  | [] => ⟨none, []⟩
  | (name, stage) :: rest =>
    match stage () with
    | .ok v => ⟨some (name, v), [⟨name, .ok v⟩]⟩
    | .error e =>
      let later := runStages rest
      ⟨later.decision, ⟨name, .error e⟩ :: later.attempts⟩

end Haulage
