import StpLang.Text.Decimal
import StpLang.Text.Quoted

/-!
The limit on nesting.

Unless a caller gives a limit, it comes from the environment, where it must be
a positive integer, and is 100 when nothing is set.
-/

namespace StpLang

namespace Limit

/-- The limit when nothing is set. -/
def standard : Int := 100

/-- Why a setting of the environment is no limit. -/
inductive Fault where
  | notInteger (setting : String)
  | notPositive (value : Int)
deriving DecidableEq, Repr

/-- The wording of a fault. -/
def Fault.message : Fault → String
  | notInteger setting =>
    "STP_MAX_DEPTH must be an integer, got " ++ Text.quoted setting
  | notPositive value => s!"STP_MAX_DEPTH must be positive, got {value}"

/-- The limit that the environment asks for; an empty setting counts as
none. -/
def ofSetting : Option String → Except Fault Int
  | none => .ok standard
  | some setting =>
    if setting.isEmpty then .ok standard
    else match Text.integer? setting with
      | none => .error (.notInteger setting)
      | some n => if n < 1 then .error (.notPositive n) else .ok n

/-- The given limit, or else that of the environment. -/
def resolve (given : Option Int) (setting : Option String) : Except Fault Int :=
  match given with
  | some limit => .ok limit
  | none => ofSetting setting

end Limit

end StpLang
