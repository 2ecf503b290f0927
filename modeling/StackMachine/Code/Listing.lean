import StackMachine.Code.Module
import StackMachine.Text.Quoted

/-! The text form of a module: each function with its numbered instructions, then the strings. -/

namespace StackMachine

def Func.listing (f : Func) : String :=
  s!"(function {Text.quoted f.name} {f.nparams} {f.nlocals}\n"
    ++ String.join (f.code.zipIdx.map fun (i, n) => s!"  {n}  {i.text}\n") ++ ")\n"

def Module.listing (m : Module) : String :=
  String.join (m.functions.map Func.listing)
    ++ String.join (m.strings.map fun s => s!"(string {Text.quoted s})\n")

end StackMachine
