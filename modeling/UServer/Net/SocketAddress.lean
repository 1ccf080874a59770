import UServer.Net.IPAddress

/-! The socket address class: host text, address, port and IPv6 scope, with the
two comparison operators as they are written. -/
namespace UServer.Net
open Library

structure SocketAddress where
  hostname : List Byte
  ip : IPAddress
  port : Word 2
  scopedId : Word 4
  literal : Bool

/-- The members that the constructors taking an address and a port leave unset. -/
structure Indeterminate where
  scopedId : Word 4
  literal : Bool

namespace SocketAddress

/-- SetPort keeps the low sixteen bits of an int. -/
def portOfInt (port : Int) : Word 2 :=
  ⟨(port % 65536).toNat, by have := Int.emod_lt_of_pos port (show (0 : Int) < 65536 by decide); omega⟩

@[simp] theorem portOfInt_val (port : Word 2) : portOfInt port.val = port := by
  apply Fin.ext
  have := port.isLt
  simp only [portOfInt]
  omega

def setIP (a : SocketAddress) (ip : IPAddress) : SocketAddress := { a with ip := ip }
def setPort (a : SocketAddress) (port : Int) : SocketAddress := { a with port := portOfInt port }
def setScopeID (a : SocketAddress) (id : Word 4) : SocketAddress := { a with scopedId := id }

/-- Clear, and with it the default constructor. -/
def clear : SocketAddress := ⟨[], .nil, 0, 0, false⟩

/-- The constructor from an address and a port. -/
def ofIP (unset : Indeterminate) (ip : IPAddress) (port : Int) : SocketAddress :=
  ((⟨[], .nil, 0, unset.scopedId, unset.literal⟩ : SocketAddress).setIP ip).setPort port

/-- operator= copies every member but literal_. -/
def assign (a addr : SocketAddress) : SocketAddress := { addr with literal := a.literal }

/-- EqualIPs demands a concrete address and the same host text. -/
def equalIPs (a addr : SocketAddress) : Bool :=
  a.ip.equal addr.ip && ((!a.ip.isAny && !a.ip.isUnspec) && decide (a.hostname = addr.hostname))

def equalPorts (a addr : SocketAddress) : Bool := decide (a.port = addr.port)

def equal (a addr : SocketAddress) : Bool := a.equalIPs addr && a.equalPorts addr

/-- operator<, where the conjunction binds tighter than the disjunction: for the
any address the host text alone decides. -/
def less (a addr : SocketAddress) : Bool :=
  if !a.ip.equal addr.ip then a.ip.less addr.ip
  else if a.ip.isAny || (a.ip.isUnspec && decide (a.hostname ≠ addr.hostname)) then
    decide (a.hostname < addr.hostname)
  else decide (a.port < addr.port)

end SocketAddress
end UServer.Net
