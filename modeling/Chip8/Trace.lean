import Chip8.Execution

/-!
# The trace

A line or two for each instruction that was executed, worded from the machine before and after it.
-/

namespace Chip8
namespace Trace

variable {w h : Nat}

def truth (b : Bool) : String := if b then "True" else "False"

def loaded (program : List UInt8) : String :=
  let start := Hexadecimal.marked Machine.programStart
  s!"Loaded {program.length} bytes at {start}."

def pressed (k : Int) (held : Bool) : String :=
  let state := truth held
  s!"Key State Changed.  Key: {k}, Pressed: {state}."

def Logic.name : Logic → String
  | .or => "or"
  | .and => "and"
  | .xor => "xor"

def Logic.sign : Logic → String
  | .or => "|"
  | .and => "&"
  | .xor => "^"

def condition (m : Machine w h) : Condition → String
  | .equal x b =>
    let v := m.register x
    s!"register {x}'s value ({v}) is {b}"
  | .different x b =>
    let v := m.register x
    s!"register {x}'s value ({v}) is not {b}"
  | .same x y =>
    let v := m.register x
    let u := m.register y
    s!"register {x}'s value ({v}) is equal to register {y}'s value ({u})"
  | .distinct x y =>
    let v := m.register x
    let u := m.register y
    s!"register {x}'s value ({v}) is not equal to register {y}'s value ({u})"
  | .pressed x =>
    let k : Key := Fin.ofNat 16 (m.register x).toNat
    let state := truth (m.keys.latched k)
    s!"the key represented by the value of register {x} ({k}) is pressed ({state})"
  | .released x =>
    let k : Key := Fin.ofNat 16 (m.register x).toNat
    let state := truth (m.keys.latched k)
    s!"the key represented by the value of register {x} ({k}) is not pressed ({state})"

/-- What an instruction does, told of the machine that it was executed on, already advanced, and of
the machine that it left. -/
def effect (tall : Bool) (random : UInt8) (before after : Machine w h) : Instruction → String
  | .clear => "Clearing the screen."
  | .leave =>
    let target := Hexadecimal.marked after.counter
    s!"Return from subroutine, continue at {target}."
  | .jump a =>
    let target := Hexadecimal.marked a
    s!"Jump to address {target}."
  | .call a =>
    let target := Hexadecimal.marked a
    s!"Call subroutine at address {target}."
  | .skip c =>
    let test := condition before c
    s!"Skip next instruction if {test}."
  | .set x b => s!"Set the value of register {x} to {b}."
  | .add x b => s!"Add {b} to the value of register {x}."
  | .copy x y =>
    let v := after.register y
    s!"Set the value of register {x} to register {y}'s value ({v})."
  | .logic op x y =>
    let a := before.register x
    let b := before.register y
    let name := Logic.name op
    let sign := Logic.sign op
    let result := op.eval a b
    s!"Set the value of register {x} to the bitwise {name} of itself and the value of register " ++
      s!"{y} ({a} {sign} {b} = {result})."
  | .sum x y =>
    let a := before.register x
    let b := before.register y
    let result := a + b
    let carry := after.register Register.flag
    s!"Set the value of register {x} to the sum of itself and the value of register {y} " ++
      s!"({a} + {b} = {result}, carry = {carry})."
  | .subtract x y =>
    let a := before.register x
    let b := before.register y
    let result := (Machine.byteDifference a.toNat b.toNat).1
    let flag := after.register Register.flag
    s!"Set the value of register {x} to the difference of itself and the value of register {y} " ++
      s!"({a} - {b} = {result}, not borrow = {flag})."
  | .shift .right x y =>
    let source := before.shiftSource x y
    let v := before.register source
    let result := Shift.eval .right v
    let flag := after.register Register.flag
    s!"Shift the value of register {source} to the right by 1 into register {x} " ++
      s!"({v} >> 1 = {result}, previous least significant bit = {flag})."
  | .shift .left x y =>
    let source := before.shiftSource x y
    let v := before.register source
    let result := Shift.eval .left v
    let flag := after.register Register.flag
    s!"Shift the value of register {source} to the left by 1 into register {x} " ++
      s!"({v} << 1 = {result}, previous most significant bit = {flag})."
  | .subtractFrom x y =>
    let a := before.register x
    let b := before.register y
    let result := (Machine.byteDifference b.toNat a.toNat).1
    let flag := after.register Register.flag
    s!"Set the value of register {y} to the difference of itself and the value of register {x} " ++
      s!"({b} - {a} = {result}, not borrow = {flag})."
  | .setIndex a =>
    let target := Hexadecimal.marked a
    s!"Set register I to {target}."
  | .jumpPlus a =>
    let base := Hexadecimal.marked a
    let offset := Hexadecimal.marked (before.register 0).toNat
    let target := Hexadecimal.marked after.counter
    "Jump to the provided address plus the value of register 0 " ++
      s!"({base} + {offset} = {target})."
  | .random x mask =>
    let result := mask &&& random
    s!"Set the value of register {x} to the bitwise and of the provided value and a random " ++
      s!"number [0, 255] ({mask} & {random} = {result})."
  | .draw x y rows =>
    let height := (before.spriteShape tall rows).1
    let start := Hexadecimal.marked before.index
    let corner := before.spriteOrigin x y
    let flag := after.register Register.flag
    s!"Drawing the sprite with a height of {height} and found at address {start} to the screen " ++
      s!"at the x-coordinate from the value of register {x} and y-coordinate from the value of " ++
      s!"register {y} ({corner.1}, {corner.2}), pixel unset = {flag}."
  | .readDelay x =>
    s!"Set the value of register {x} to the value of the delay timer ({before.delay})."
  | .awaitKey x =>
    match before.keys.first? with
    | some k => s!"Storing the key {k} in register {x}."
    | none => s!"Waiting for a keypress to store in register {x}."
  | .setDelay x =>
    let v := before.register x
    s!"Set the value of the delay timer to value of register {x} ({v})."
  | .setSound x =>
    let v := before.register x
    s!"Set the value of the sound timer to value of register {x} ({v})."
  | .addIndex x =>
    let v := before.register x
    s!"Add the value of register {x} to the value of register I " ++
      s!"({before.index} + {v} = {after.index})."
  | .pointDigit x =>
    let v := before.register x
    s!"Set the value of register I to the address ({after.index}) of the hexadecimal sprite " ++
      s!"represented by the value of register {x} ({v})."
  | .storeDecimal x =>
    let v := before.register x
    let start := Hexadecimal.marked before.index
    let digits := String.intercalate ", " ((Machine.decimalDigits v).map toString)
    s!"Store the Binary Coded Decimal representation of the value of register {x} ({v}), " ++
      s!"starting at the value of register I ({start}), ({digits})."
  | .dump x =>
    let start := Hexadecimal.marked before.index
    s!"Dumping the values of all registers from register 0 to register {x} into memory, " ++
      s!"starting at the value of register I ({start})."
  | .restore x =>
    let start := Hexadecimal.marked before.index
    s!"Loading the values of all registers from register 0 to register {x} from memory, " ++
      s!"starting at the value of register I ({start})."
  | .ignored _ => ""

def executed (tall : Bool) (random : UInt8) (c : Opcode) (before after : Machine w h) :
    List String :=
  match Instruction.ofOpcode c with
  | .ignored _ => ["Unimplemented / Invalid Opcode: " ++ c.text ++ ".  Ignoring."]
  | i =>
    let line := "Execute Opcode " ++ c.text ++ ": " ++ effect tall random before.advance after i
    match i with
    | .skip condition =>
      if before.advance.meets condition then [line, "Instruction skipped."] else [line]
    | _ => [line]

end Trace
end Chip8
