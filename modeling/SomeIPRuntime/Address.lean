import Mathlib.Tactic

set_option autoImplicit false

namespace SomeIPRuntime

abbrev ServiceId := BitVec 16
abbrev InstanceId := BitVec 16
abbrev MethodId := BitVec 16
abbrev EventId := BitVec 16
abbrev EventgroupId := BitVec 16
abbrev SessionId := BitVec 16
abbrev MajorVersion := BitVec 8
abbrev MinorVersion := BitVec 32

structure Address where
  service : ServiceId
  instance_ : InstanceId
  majorVersion : MajorVersion
  minorVersion : MinorVersion
  deriving DecidableEq, Repr

/-- The tables that are nested by service and instance have no empty inner tables, and
    are one table. -/
def Address.key (address : Address) : ServiceId × InstanceId := (address.service, address.instance_)

end SomeIPRuntime
