/-!
# Resolutions

The four window lengths that bars are kept at, and one value for each of them.
-/

namespace TapeReader

inductive Resolution where
  | oneSecond
  | tenSeconds
  | oneMinute
  | fiveMinutes
deriving DecidableEq, Repr

namespace Resolution

/-- The resolutions, finest first. -/
def all : List Resolution := [.oneSecond, .tenSeconds, .oneMinute, .fiveMinutes]

def index : Resolution → Nat
  | .oneSecond => 0
  | .tenSeconds => 1
  | .oneMinute => 2
  | .fiveMinutes => 3

def ofIndex? (i : Nat) : Option Resolution := all[i]?

def name : Resolution → String
  | .oneSecond => "1s"
  | .tenSeconds => "10s"
  | .oneMinute => "1m"
  | .fiveMinutes => "5m"

end Resolution

/-- One value for each resolution. -/
structure PerResolution (α : Type) where
  oneSecond : α
  tenSeconds : α
  oneMinute : α
  fiveMinutes : α
deriving DecidableEq, Repr

namespace PerResolution

variable {α β : Type}

def get (p : PerResolution α) : Resolution → α
  | .oneSecond => p.oneSecond
  | .tenSeconds => p.tenSeconds
  | .oneMinute => p.oneMinute
  | .fiveMinutes => p.fiveMinutes

def set (p : PerResolution α) (r : Resolution) (a : α) : PerResolution α :=
  match r with
  | .oneSecond => { p with oneSecond := a }
  | .tenSeconds => { p with tenSeconds := a }
  | .oneMinute => { p with oneMinute := a }
  | .fiveMinutes => { p with fiveMinutes := a }

def map (f : α → β) (p : PerResolution α) : PerResolution β where
  oneSecond := f p.oneSecond
  tenSeconds := f p.tenSeconds
  oneMinute := f p.oneMinute
  fiveMinutes := f p.fiveMinutes

/-- The values, finest resolution first. -/
def toList (p : PerResolution α) : List α :=
  [p.oneSecond, p.tenSeconds, p.oneMinute, p.fiveMinutes]

end PerResolution

end TapeReader
