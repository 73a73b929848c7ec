import PartProgram.Options.Basic

/-!
# PartProgram.Job

A job is a control with the options for it: all that the rules for a program depend on.
-/

namespace PartProgram

/-- The lines of a program. -/
abbrev Lines := List String

/-- What a program is optimized for. -/
structure Job where
  controller : Controller
  options : Options

namespace Job

def flag (j : Job) (f : GeneralFlag) : Bool := j.options.general f

def fanucFlag (j : Job) (f : FanucFlag) : Bool := j.options.fanucSwitches f

def heidenhainFlag (j : Job) (f : HeidenhainFlag) : Bool := j.options.heidenhainSwitches f

def profile (j : Job) : Profile := j.controller.profile

end Job

end PartProgram
