import Chip8.Keypad

/-!
# The keyboard

Events are a request to quit, keys going down and up, and others, which mean nothing. A key is given
by its code: that of the character on it, if it has one.
-/

namespace Chip8

/-- What came in from outside. A key event carries the set of modifiers that were held. -/
inductive Event
  | quit
  | key (down : Bool) (code modifiers : Int)
  | other
  deriving DecidableEq

namespace Keyboard

abbrev padMultiply : Int := 1073741909

/-- What a key does when it goes down, besides its place on the keypad. -/
inductive Hotkey
  | quit
  | pause
  | reset
  | load
  | fade (faster : Bool)
  | volume (louder : Bool)
  deriving DecidableEq

def withShift (modifiers : Int) : Bool := modifiers % 4 != 0

def isAsterisk (code modifiers : Int) : Bool :=
  code == 42 || code == padMultiply || (code == 56 && withShift modifiers)

def hotkey? (code modifiers : Int) : Option Hotkey :=
  if code = 27 then some .quit
  else if code = 32 then some .pause
  else if isAsterisk code modifiers then some .reset
  else if code = 108 then some .load
  else if code = 106 then some (.fade false)
  else if code = 107 then some (.fade true)
  else if code = 111 then some (.volume false)
  else if code = 112 then some (.volume true)
  else none

/-- The characters of the keys that stand for the keypad, by the key they stand for. -/
def layout : List (Char × Key) :=
  [('x', 0), ('1', 1), ('2', 2), ('3', 3), ('q', 4), ('w', 5), ('e', 6), ('a', 7),
   ('s', 8), ('d', 9), ('z', 10), ('c', 11), ('4', 12), ('r', 13), ('f', 14), ('v', 15)]

def keypadKey? (code : Int) : Option Key :=
  (layout.find? fun entry => (entry.1.toNat : Int) == code).map Prod.snd

/-- The events of some lines, a batch for each: the keys named on a line go down and those named on
the line before it come up. -/
def batches (before : String) : List String → List (List Event)
  | [] => []
  | line :: lines =>
    let event (down : Bool) (c : Char) : Event := .key down c.toNat 0
    (before.toList.map (event false) ++ line.toList.map (event true)) :: batches line lines

end Keyboard
end Chip8
