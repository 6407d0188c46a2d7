import CrossBuild.Command.Scripted
import CrossBuild.Machine

/-!
A client of object storage that answers from rules, as scripted commands do, and besides copies
between files and objects: what it uploads is recorded, and what it downloads comes from a list.
-/

namespace CrossBuild

structure Rehearsal where
  calls : List Command
  /-- What was uploaded, and to which addresses. -/
  uploads : List (String × ByteArray)

namespace Rehearsal

def start : Rehearsal := ⟨[], []⟩

/-- Copies a file to an address or an object to a file. -/
def copy (objects : List (String × ByteArray)) (source target : String) (machine : Machine Rehearsal) :
    Machine Rehearsal :=
  if Text.startsWith target "s3://" then
    match machine.files.read source with
    | .ok data =>
      { machine with service := { machine.service with uploads := machine.service.uploads ++ [(target, data)] } }
    | .error _ => machine
  else
    match objects.find? (·.1 == source) with
    | some (_, data) =>
      { machine with files := (machine.files.write target data machine.now).toOption.getD machine.files }
    | none => machine

/-- Records each command, copies if it asks for that, and answers by rules whatever came of it. -/
def executor (rules : List Command.Rule) (objects : List (String × ByteArray)) :
    Executor (Machine Rehearsal) := fun c => do
  modify fun machine =>
    { machine with service := { machine.service with calls := machine.service.calls ++ [c] } }
  match c.argv with
  | [_, _, "cp", _, source, target] => modify (copy objects source target)
  | _ => pure ()
  return .ok (Command.answer rules c.argv)

end Rehearsal

end CrossBuild
