/-!
# Random bytes

A source hands out its bytes one after the other and remembers how many it has given.
-/

namespace Chip8

structure Noise where
  byteAt : Nat → UInt8
  used : Nat := 0

namespace Noise

def next (n : Noise) : UInt8 := n.byteAt n.used

def advance (n : Noise) : Noise := { n with used := n.used + 1 }

/-- The bytes of a list in turn, over and over; zeros if there are none. -/
def cycle (bytes : List UInt8) : Noise :=
  let table := bytes.toArray
  { byteAt := fun k => table[k % table.size]?.getD 0 }

def scramble (n : UInt64) : UInt64 :=
  let a := (n ^^^ (n >>> 30)) * 0xbf58476d1ce4e5b9
  let b := (a ^^^ (a >>> 27)) * 0x94d049bb133111eb
  b ^^^ (b >>> 31)

def ofSeed (seed : UInt64) : Noise where
  byteAt k := (scramble (seed + 0x9e3779b97f4a7c15 * UInt64.ofNat (k + 1))).toUInt8

end Noise
end Chip8
