import TradingTerminal.Core.Config
import TradingTerminal.Lib.Numeral

/-!
# The values of a configuration

The getters of `core/config.hpp`. A missing number is read from the text of its default, with six
decimals for a `double`, so a default with no more than six is returned as it is
(`getDouble_of_missing`).
-/

namespace TradingTerminal

open Lib

namespace Config

def get (c : Config) (key default : Text) : Text := UMap.getD c.settings key default

def getDouble (c : Config) (key : Text) (default : ℚ) : ℚ :=
  (stod (c.get key (toFixed 6 default))).getD default

def getInt (c : Config) (key : Text) (default : Int) : Int :=
  (stoi (c.get key (toString default).toList)).getD default

def getStrategyParam (c : Config) (strategy param : Text) (default : ℚ) : ℚ :=
  c.getDouble ("strategies.".toList ++ strategy ++ ['.'] ++ param) default

def isStrategyEnabled (c : Config) (strategy : Text) : Bool := strategy ∈ c.activeStrategies

/-- The number a file sets at a key. -/
def doubleAt (c : Config) (key : Text) : Option ℚ := (c.settings.lookup key).bind stod

def intAt (c : Config) (key : Text) : Option Int := (c.settings.lookup key).bind stoi

/-- The getters return what is set, whatever the default. -/
theorem getDouble_of_set {c : Config} {key : Text} {value : ℚ} (h : c.doubleAt key = some value)
    (default : ℚ) : c.getDouble key default = value := by
  obtain ⟨text, htext, hvalue⟩ := Option.bind_eq_some_iff.1 h
  rw [getDouble, get, UMap.getD, htext, Option.getD_some, hvalue, Option.getD_some]

theorem getInt_of_set {c : Config} {key : Text} {value : Int} (h : c.intAt key = some value)
    (default : Int) : c.getInt key default = value := by
  obtain ⟨text, htext, hvalue⟩ := Option.bind_eq_some_iff.1 h
  rw [getInt, get, UMap.getD, htext, Option.getD_some, hvalue, Option.getD_some]

theorem getDouble_of_missing {c : Config} {key : Text} (h : key ∉ c.settings) {default : ℚ}
    {n : Int} (hdecimals : default * 10 ^ 6 = n) : c.getDouble key default = default := by
  have hlookup : c.settings.lookup key = none := AList.lookup_eq_none.2 h
  rw [getDouble, get, UMap.getD, hlookup, Option.getD_none, stod, strtod_toFixed hdecimals,
    Option.filter_some]
  split <;> rfl

end Config

end TradingTerminal
