import PartProgram.Options.Basic

/-!
# PartProgram.Options.Preset

Ready-made settings for a purpose. A preset has switches for both dialects; a target takes those it
speaks.
-/

namespace PartProgram

inductive Preset where
  | basic
  | speed
  | quality
  | advanced
deriving DecidableEq, Repr

namespace Preset

def all : List Preset := [basic, speed, quality, advanced]

def name : Preset → String
  | basic => "basic"
  | speed => "speed"
  | quality => "quality"
  | advanced => "advanced"

def names : List String := all.map name

def ofName? (s : String) : Option Preset := all.find? (·.name == s)

def general : Preset → Switches GeneralFlag
  | basic | quality => .standard
  | speed => (Switches.standard.set .removeComments true).set .useHighSpeedMode true
  | advanced => Switches.standard.set .useHighSpeedMode true

def fanuc : Preset → Switches FanucFlag
  | basic => .standard
  | speed =>
    ((Switches.standard.set .useAi true).set .useNanoSmoothing true).set .useCornerRounding true
  | quality => (Switches.standard.set .useHighPrecisionMode true).set .useCompactCode false
  | advanced =>
    (((Switches.standard.set .useAi true).set .useNanoSmoothing true).set
      .useCornerRounding true).set .useHighPrecisionMode true

def heidenhain : Preset → Switches HeidenhainFlag
  | basic => Switches.standard.set .useFunctionBlocks false
  | speed | quality | advanced => Switches.standard.set .useTcp true

end Preset

end PartProgram
