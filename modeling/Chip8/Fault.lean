import Chip8.Opcode

/-!
# Faults

A fault is an error of the running program: an access outside memory, or a call or a return that the
stack cannot follow. It ends the session.
-/

namespace Chip8

abbrev maxStackDepth : Nat := 12

/-- What is told of a fault: a sentence, and where known the address and the word at fault. -/
structure FaultReport where
  detail : String
  address : Option Int
  code : Option Int

/-- The sentence, followed by the place if it is known in full. -/
def FaultReport.text (r : FaultReport) : String :=
  match r.address, r.code with
  | some address, some code =>
    r.detail ++ " (opcode " ++ Hexadecimal.field "" 4 code ++ " at " ++
      Hexadecimal.field "0x" 5 address ++ ")"
  | _, _ => r.detail

/-- An error of execution. The address is that of the instruction at fault. -/
inductive Fault
  | fetchOutside (address : Int)
  | accessOutside (size : Nat) (index address : Int) (code : Opcode)
  | stackFull (address : Int) (code : Opcode)
  | stackEmpty (address : Int) (code : Opcode)
  deriving DecidableEq

namespace Fault

def address : Fault → Int
  | fetchOutside a => a
  | accessOutside _ _ a _ => a
  | stackFull a _ => a
  | stackEmpty a _ => a

def code? : Fault → Option Opcode
  | fetchOutside _ => none
  | accessOutside _ _ _ c => some c
  | stackFull _ c => some c
  | stackEmpty _ c => some c

def detail : Fault → String
  | fetchOutside _ => "Program counter ran past the end of memory."
  | accessOutside size index _ _ =>
    let start := Hexadecimal.marked index
    s!"Access of {size} bytes at {start} runs past the end of memory."
  | stackFull _ _ =>
    s!"Tried to call a subroutine with {maxStackDepth} calls already on the stack."
  | stackEmpty _ _ => "Tried to return from a subroutine when the stack is empty."

def report (f : Fault) : FaultReport := ⟨f.detail, some f.address, f.code?.map (·.toNat)⟩

end Fault

end Chip8
