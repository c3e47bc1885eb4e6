import C64.Cia
import C64.Cpu
import C64.Rom
import C64.Rtc
import C64.Vic.Standard

/-!
# The machine's configuration

What can be chosen when a machine is built: the video standard, the kind of processor and the
chips that are optional. A choice that makes no sense leaves its part out or falls back to a
default; the machine is built all the same and keeps a list of what was wrong.
-/

namespace C64

/-- What can be chosen. -/
structure Machine.Config where
  standard : VideoStandard := .pal
  cpu : Cpu.Config := {}
  /-- Pulses a second for the time of day; those of the mains if not chosen. -/
  todHz : Option Nat := none
  /-- The real-time clock, if one is fitted. -/
  rtc : Option Rtc.Config := none
  /-- Whether an interface adapter is fitted. -/
  via : Bool := false
deriving DecidableEq

/-- What is wrong with a configuration. -/
inductive Machine.ConfigError where
  | rom (e : RomError)
  /-- The rate of the time of day is zero; `fallback` is used. -/
  | todRate (fallback : Nat)
  | rtc (e : Rtc.ConfigError)
deriving DecidableEq

/-- What to tell the user. -/
def Machine.ConfigError.message : Machine.ConfigError → String
  | rom e => e.message
  | todRate fallback => s!"TOD frequency of 0 Hz ignored; using {fallback} Hz"
  | rtc e => s!"RTC left out: {e.message}"

/-- The configuration of both adapters, and what was wrong with it. -/
def Machine.Config.cia (config : Machine.Config) : Cia.Config × List Machine.ConfigError :=
  let mains := config.standard.todHz
  let rate := config.todHz.getD mains
  if rate = 0 then (⟨config.standard.cpuHz, mains⟩, [.todRate mains])
  else (⟨config.standard.cpuHz, rate⟩, [])

end C64
