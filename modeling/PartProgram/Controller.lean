import PartProgram.Text.Blank

/-!
# PartProgram.Controller

The controls a program can be written for, and the limits of their machines. Every control without
a profile of its own has the generic one.
-/

namespace PartProgram

inductive Controller where
  | fanuc
  | heidenhain
  | siemens
  | haas
  | mazak
  | okuma
  | generic
deriving DecidableEq, Repr

namespace Controller

def all : List Controller := [fanuc, heidenhain, siemens, haas, mazak, okuma, generic]

def name : Controller → String
  | fanuc => "fanuc"
  | heidenhain => "heidenhain"
  | siemens => "siemens"
  | haas => "haas"
  | mazak => "mazak"
  | okuma => "okuma"
  | generic => "generic"

/-- Lower case of the letters that have an ASCII lower case: the ASCII capitals and the Kelvin
sign. -/
def lowerLetter (c : Char) : Char := if c = '\u212A' then 'k' else c.toLower

/-- The control of a name, whatever its case and the blanks around it. -/
def ofName? (s : String) : Option Controller :=
  let key := String.ofList ((Text.trim s.toList).map lowerLetter)
  all.find? (·.name == key)

/-- The ending of a program file. -/
def fileExtension : Controller → String
  | heidenhain => ".h"
  | _ => ".nc"

end Controller

/-- Limits of a machine: feeds in units per minute, travel in units on each axis. -/
structure Profile where
  maxFeed : Float
  minFeed : Float
  rapidRate : Float
  travelMin : List Float
  travelMax : List Float

/-- Travel reaches this far from the origin in every direction. -/
def travelLimit : Float := 1000.0

def Profile.withFeeds (maxFeed rapidRate : Float) : Profile :=
  { maxFeed := maxFeed
    minFeed := 1.0
    rapidRate := rapidRate
    travelMin := List.replicate 3 (-travelLimit)
    travelMax := List.replicate 3 travelLimit }

def Controller.profile : Controller → Profile
  | fanuc => .withFeeds 20000.0 24000.0
  | heidenhain => .withFeeds 15000.0 20000.0
  | _ => .withFeeds 10000.0 10000.0

end PartProgram
