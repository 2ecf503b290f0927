/-! Where a program's output goes: bytes in order of writing, up to a capacity if there is one.
Text that fits in part is taken in part before the writing fails. -/

namespace StackMachine

structure Output where
  bytes : Array UInt8 := #[]
  capacity : Option Nat := none
  flushError : Option String := none
  deriving DecidableEq, Repr

namespace Output

def write (o : Output) (data : List UInt8) : Except String Unit × Output :=
  match o.capacity with
  | none => (.ok (), { o with bytes := o.bytes ++ data })
  | some capacity =>
    let fitting := data.take (capacity - o.bytes.size)
    (if fitting.length = data.length then .ok () else .error "output full",
      { o with bytes := o.bytes ++ fitting })

def flush (o : Output) : Except String Unit :=
  match o.flushError with
  | none => .ok ()
  | some reason => .error reason

end Output

end StackMachine
