/-
# Settings

The limits of the engine and the formula of routes that bring none. Each setting has a name under
which an entry of a mapping overrides its default; entries of other names are kept, but nothing
looks at them.
-/
import Haulage.Value.Fault

namespace Haulage

/-- The settings of the engine. -/
structure Settings where
  /-- The formula of a route without one. -/
  defaultFormula : Value
  /-- The most characters of a formula. -/
  maxFormulaLength : Int
  /-- The most arguments of a function. -/
  maxFunctionArguments : Int
  /-- The most passes in which the shorthands of a formula are spelled out. -/
  maxPasses : Int
  /-- The most characters of a formula once it is spelled out. -/
  maxExpandedLength : Int

namespace Settings

/-- The settings where nothing overrides them. -/
def standard : Settings where
  defaultFormula := .text "Valor * Palets + Peaje".toList
  maxFormulaLength := 1000
  maxFunctionArguments := 50
  maxPasses := 10
  maxExpandedLength := 10000

/-- The settings as entries under their names. -/
def entries (s : Settings) : List (Text × Value) :=
  [("DEFAULT_FORMULA".toList, s.defaultFormula),
   ("MAX_FORMULA_LENGTH".toList, .int s.maxFormulaLength),
   ("MAX_FUNCTION_ARGUMENTS".toList, .int s.maxFunctionArguments),
   ("MAX_TRANSPILE_PASSES".toList, .int s.maxPasses),
   ("MAX_EXPANDED_LENGTH".toList, .int s.maxExpandedLength)]

/-- The integer under a name, if the entry there is one. -/
def limit (overrides : List (Text × Value)) (name : String) (otherwise : Int) : Int :=
  match overrides.lookup name.toList with
  | some (.int n) => n
  | some (.bool b) => if b then 1 else 0
  | _ => otherwise

/-- The settings with some of them overridden. -/
def ofOverrides (overrides : List (Text × Value)) : Settings where
  defaultFormula := (overrides.lookup "DEFAULT_FORMULA".toList).getD standard.defaultFormula
  maxFormulaLength := limit overrides "MAX_FORMULA_LENGTH" standard.maxFormulaLength
  maxFunctionArguments := limit overrides "MAX_FUNCTION_ARGUMENTS" standard.maxFunctionArguments
  maxPasses := limit overrides "MAX_TRANSPILE_PASSES" standard.maxPasses
  maxExpandedLength := limit overrides "MAX_EXPANDED_LENGTH" standard.maxExpandedLength

/-- The setting with a name: what overrides it, or else its default. -/
def named (overrides : List (Text × Value)) (name : Text) : Except ValueFault Value :=
  match overrides.lookup name, standard.entries.lookup name with
  | some v, _ => .ok v
  | none, some v => .ok v
  | none, none => .error (.unknownSetting name)

/-- Without overrides the settings are the standard ones. -/
@[simp] theorem ofOverrides_nil : ofOverrides [] = standard := rfl

end Settings

end Haulage
