import Chip8.Console

/-!
# Transitions

On a well-formed machine an instruction either meets an obstacle, and then nothing at all has
happened, or has its whole effect. `obstacle?` and `result` are these two halves of `perform`, free
of the checks for registers that might be missing; `perform_eq` puts them together, and `step_cases`
lists what a step of a console can do.
-/

namespace Chip8

namespace Instruction

def writesMemory : Instruction → Bool
  | .storeDecimal _ | .dump _ => true
  | _ => false

def movesIndex : Instruction → Bool
  | .setIndex _ | .addIndex _ | .pointDigit _ | .dump _ | .restore _ => true
  | _ => false

def usesStack : Instruction → Bool
  | .call _ | .leave => true
  | _ => false

def setsDelay : Instruction → Bool
  | .setDelay _ => true
  | _ => false

def setsSound : Instruction → Bool
  | .setSound _ => true
  | _ => false

def draws : Instruction → Bool
  | .clear | .draw _ _ _ => true
  | _ => false

/-- The instructions behind which another than the next may follow. -/
def steers : Instruction → Bool
  | .leave | .jump _ | .call _ | .skip _ | .jumpPlus _ | .awaitKey _ => true
  | _ => false

end Instruction

/-- A machine with pixels, with all its memory and registers, and with an address register that does
not count from the end of memory. -/
structure Machine.WellFormed {w h : Nat} (m : Machine w h) : Prop where
  width_pos : 0 < w
  height_pos : 0 < h
  memory_size : m.memory.size = memorySize
  registers_size : m.registers.size = registerCount
  index_nonneg : 0 ≤ m.index

namespace Machine

variable {w h : Nat}

/-- The fault of an access to so many bytes, if they do not all lie within memory. -/
def overrun? (m : Machine w h) (i : Instruction) (size : Nat) : Option Failure :=
  if m.index + size ≤ m.memory.size then none
  else some (.fault (.accessOutside size m.index m.origin i.toOpcode))

/-- What keeps an instruction from being carried out. -/
def obstacle? (m : Machine w h) (tall : Bool) (i : Instruction) : Option Failure :=
  match i with
  | .leave => if m.stack = [] then some (.fault (.stackEmpty m.origin i.toOpcode)) else none
  | .call _ =>
    if m.stack.length < maxStackDepth then none
    else some (.fault (.stackFull m.origin i.toOpcode))
  | .draw _ _ rows => m.overrun? i ((m.spriteShape tall rows).1 * (m.spriteShape tall rows).2)
  | .readDelay _ => if 0 ≤ m.delay ∧ m.delay < 256 then none else some .notByte
  | .storeDecimal _ => m.overrun? i 3
  | .dump x => m.overrun? i (x + 1)
  | .restore x => m.overrun? i (x + 1)
  | _ => none

def writeFlagged (m : Machine w h) (r : Register) (b flag : UInt8) : Machine w h :=
  (m.setRegister r b).setRegister Register.flag flag

/-- What an instruction makes of a machine on which nothing keeps it from being carried out. -/
def result (m : Machine w h) (tall : Bool) (random : UInt8) (i : Instruction) : Machine w h :=
  match i with
  | .clear => m.darken
  | .leave => { m with counter := m.stack.headD 0, stack := m.stack.tail }
  | .jump a => { m with counter := a }
  | .call a => { m with counter := a, stack := m.counter :: m.stack }
  | .skip condition => if m.meets condition then { m with counter := m.counter + 2 } else m
  | .set x b => m.setRegister x b
  | .add x b => m.setRegister x (m.register x + b)
  | .copy x y => m.setRegister x (m.register y)
  | .logic op x y =>
    let b := op.eval (m.register x) (m.register y)
    if m.variant = .chip8 then m.writeFlagged x b 0 else m.setRegister x b
  | .sum x y =>
    let a := m.register x
    let b := m.register y
    m.writeFlagged x (a + b) (flagOf (255 < a.toNat + b.toNat))
  | .subtract x y =>
    let difference := byteDifference (m.register x).toNat (m.register y).toNat
    m.writeFlagged x (.ofNat difference.1) (.ofNat difference.2)
  | .shift op x y =>
    let source := m.register (m.shiftSource x y)
    m.writeFlagged x (op.eval source) (op.lost source)
  | .subtractFrom x y =>
    let difference := byteDifference (m.register y).toNat (m.register x).toNat
    m.writeFlagged y (.ofNat difference.1) (.ofNat difference.2)
  | .setIndex a => { m with index := a }
  | .jumpPlus a => { m with counter := (a + (m.register 0).toNat : Nat) }
  | .random x mask => m.setRegister x (mask &&& random)
  | .draw x y rows =>
    let drawn := m.drawn tall x y rows
    { ({ m with screen := drawn.1 } : Machine w h).setRegister Register.flag (flagOf drawn.2) with
      redraw := true }
  | .readDelay x => m.setRegister x (.ofNat m.delay.toNat)
  | .awaitKey x =>
    match m.keys.first? with
    | some k => m.setRegister x (.ofNat k)
    | none => { m with counter := m.counter - 2 }
  | .setDelay x => { m with delay := (m.register x).toNat }
  | .setSound x => { m with sound := (m.register x).toNat }
  | .addIndex x => { m with index := (m.index + (m.register x).toNat) % 65536 }
  | .pointDigit x => { m with index := ((m.register x).toNat * digitSize : Nat) }
  | .storeDecimal x =>
    { m with memory := m.memory.replace m.index 3 (decimalDigits (m.register x)) }
  | .dump x =>
    { m with
      memory := m.memory.replace m.index (x + 1) (m.registers.block 0 (x + 1))
      index := m.indexAfterBlock x }
  | .restore x =>
    { m with
      registers := m.registers.replace 0 (x + 1) (m.memory.block m.index (x + 1))
      index := m.indexAfterBlock x }
  | .ignored _ => m

theorem access_eq (m : Machine w h) (i : Instruction) (size : Nat) (next : Outcome (Machine w h)) :
    m.access i size next = (m.overrun? i size).elim next (.failed · m) := by
  unfold access overrun?
  split <;> rfl

theorem overrun?_eq_none_iff {m : Machine w h} {i : Instruction} {size : Nat} :
    m.overrun? i size = none ↔ m.index + size ≤ m.memory.size := by
  simp [overrun?]

theorem setWithFlag_eq {m : Machine w h} (hm : m.registers.size = registerCount) (r : Register)
    (b flag : UInt8) : m.setWithFlag r b flag = .done (m.writeFlagged r b flag) := by
  have hr : (m.setRegister r b).registers.size = registerCount := by simpa [setRegister] using hm
  exact setFlag_of_size hr flag

theorem store_register {m : Machine w h} (hm : m.registers.size = registerCount) (x : Register)
    {v : Int} (hv : 0 ≤ v ∧ v < 256) :
    m.registers.store x v = .ok (m.registers.set x (.ofNat v.toNat)) := by
  have hx : (x : Nat) < m.registers.size := hm ▸ x.isLt
  have hb : (UInt8.ofNat v.toNat).toNat = v.toNat := by
    rw [UInt8.toNat_ofNat']
    omega
  have hstore := m.registers.store_eq (UInt8.ofNat v.toNat) hx (by rw [hm]; decide)
  rwa [hb, Int.toNat_of_nonneg hv.1] at hstore

theorem store_register_outside (m : Machine w h) (x : Register) {v : Int}
    (hv : ¬(0 ≤ v ∧ v < 256)) : m.registers.store x v = .error .notByte := by
  have hx := x.isLt
  have hwide : ¬((x : Int) < -wideLimit ∨ wideLimit ≤ (x : Int)) := by
    simp only [wideLimit]
    omega
  have hbyte : v < 0 ∨ 256 ≤ v := by omega
  simp only [Bytes.store, if_neg hwide, if_pos hbyte]

theorem perform_draw {m : Machine w h} (hwidth : 0 < w) (hheight : 0 < h)
    (hm : m.registers.size = registerCount) (tall : Bool) (random : UInt8) (x y : Register)
    (rows : Fin 16) :
    m.perform tall random (.draw x y rows) =
      (m.obstacle? tall (.draw x y rows)).elim (.done (m.result tall random (.draw x y rows)))
        (.failed · m) := by
  have hw : w ≠ 0 := Nat.pos_iff_ne_zero.mp hwidth
  have hh : h ≠ 0 := Nat.pos_iff_ne_zero.mp hheight
  have hscreen : ({ m with screen := (m.drawn tall x y rows).1 } : Machine w h).registers.size =
      registerCount := hm
  simp only [perform, need_of_size hm, if_neg hw, if_neg hh, access_eq, obstacle?, drawSprite,
    setFlag_of_size hscreen, Outcome.andThen, result]

/-- An instruction meets an obstacle and does nothing, or it meets none and has its effect. -/
theorem perform_eq {m : Machine w h} (hm : m.WellFormed) (tall : Bool) (random : UInt8)
    (i : Instruction) :
    m.perform tall random i =
      (m.obstacle? tall i).elim (.done (m.result tall random i)) (.failed · m) := by
  have hneed := need_of_size hm.registers_size
  cases i with
  | leave =>
    simp only [perform, obstacle?, result]
    cases m.stack <;> rfl
  | call a =>
    simp only [perform, obstacle?, result]
    split <;> rfl
  | logic op x y =>
    have hx : (m.setRegister x (op.eval (m.register x) (m.register y))).registers.size =
        registerCount := by simpa [setRegister] using hm.registers_size
    simp only [perform, hneed, obstacle?, result, Option.elim_none, setFlag_of_size hx,
      writeFlagged]
    split <;> rfl
  | sum x y | subtract x y | shift op x y | subtractFrom x y =>
    simp only [perform, hneed, obstacle?, result, Option.elim_none,
      setWithFlag_eq hm.registers_size]
  | draw x y rows =>
    exact perform_draw hm.width_pos hm.height_pos hm.registers_size tall random x y rows
  | readDelay x =>
    simp only [perform, obstacle?, result]
    by_cases hd : 0 ≤ m.delay ∧ m.delay < 256
    · rw [store_register hm.registers_size x hd, if_pos hd]
      rfl
    · rw [store_register_outside m x hd, if_neg hd]
      rfl
  | awaitKey x =>
    simp only [perform, hneed, obstacle?, result, Option.elim_none]
    cases m.keys.first? <;> rfl
  | storeDecimal x =>
    simp only [perform, hneed, access_eq, obstacle?, result]
    cases hover : m.overrun? (.storeDecimal x) 3 with
    | some why => rfl
    | none =>
      have hfit := overrun?_eq_none_iff.mp hover
      have hsize := hm.memory_size
      obtain ⟨k, hk⟩ := Int.eq_ofNat_of_zero_le hm.index_nonneg
      have hlen : (decimalDigits (m.register x)).length = 3 := rfl
      have hstore := m.memory.storeAll_eq (a := k) (decimalDigits (m.register x)) (by omega)
        (by rw [hsize]; decide)
      simp only [Option.elim_none, hk, hstore, hlen, withMemory]
  | dump x | restore x => simp only [perform, access_eq, obstacle?, result]
  | _ => simp only [perform, hneed, obstacle?, result, Option.elim_none]

theorem obstacle?_leave_eq_none_iff {m : Machine w h} {tall : Bool} :
    m.obstacle? tall .leave = none ↔ m.stack ≠ [] := by
  simp [obstacle?]

theorem obstacle?_call_eq_none_iff {m : Machine w h} {tall : Bool} {a : Fin 4096} :
    m.obstacle? tall (.call a) = none ↔ m.stack.length < maxStackDepth := by
  simp [obstacle?]

theorem isRandom_of_obstacle {m : Machine w h} {tall : Bool} {i : Instruction} {why : Failure}
    (h : m.obstacle? tall i = some why) : i.isRandom = false := by
  cases i with
  | random x mask => simp [obstacle?] at h
  | _ => rfl

theorem variant_result (m : Machine w h) (tall : Bool) (random : UInt8) (i : Instruction) :
    (m.result tall random i).variant = m.variant := by
  cases i with
  | skip _ | logic _ _ _ | awaitKey _ =>
    simp only [result]
    split <;> rfl
  | _ => rfl

theorem keys_result (m : Machine w h) (tall : Bool) (random : UInt8) (i : Instruction) :
    (m.result tall random i).keys = m.keys := by
  cases i with
  | skip _ | logic _ _ _ | awaitKey _ =>
    simp only [result]
    split <;> rfl
  | _ => rfl

theorem memory_result (m : Machine w h) (tall : Bool) (random : UInt8) {i : Instruction}
    (hi : i.writesMemory = false) : (m.result tall random i).memory = m.memory := by
  cases i with
  | storeDecimal _ | dump _ => contradiction
  | skip _ | logic _ _ _ | awaitKey _ =>
    simp only [result]
    split <;> rfl
  | _ => rfl

theorem index_result (m : Machine w h) (tall : Bool) (random : UInt8) {i : Instruction}
    (hi : i.movesIndex = false) : (m.result tall random i).index = m.index := by
  cases i with
  | setIndex _ | addIndex _ | pointDigit _ | dump _ | restore _ => contradiction
  | skip _ | logic _ _ _ | awaitKey _ =>
    simp only [result]
    split <;> rfl
  | _ => rfl

theorem stack_result (m : Machine w h) (tall : Bool) (random : UInt8) {i : Instruction}
    (hi : i.usesStack = false) : (m.result tall random i).stack = m.stack := by
  cases i with
  | call _ | leave => contradiction
  | skip _ | logic _ _ _ | awaitKey _ =>
    simp only [result]
    split <;> rfl
  | _ => rfl

theorem delay_result (m : Machine w h) (tall : Bool) (random : UInt8) {i : Instruction}
    (hi : i.setsDelay = false) : (m.result tall random i).delay = m.delay := by
  cases i with
  | setDelay _ => contradiction
  | skip _ | logic _ _ _ | awaitKey _ =>
    simp only [result]
    split <;> rfl
  | _ => rfl

theorem sound_result (m : Machine w h) (tall : Bool) (random : UInt8) {i : Instruction}
    (hi : i.setsSound = false) : (m.result tall random i).sound = m.sound := by
  cases i with
  | setSound _ => contradiction
  | skip _ | logic _ _ _ | awaitKey _ =>
    simp only [result]
    split <;> rfl
  | _ => rfl

theorem screen_result (m : Machine w h) (tall : Bool) (random : UInt8) {i : Instruction}
    (hi : i.draws = false) : (m.result tall random i).screen = m.screen := by
  cases i with
  | clear | draw _ _ _ => contradiction
  | skip _ | logic _ _ _ | awaitKey _ =>
    simp only [result]
    split <;> rfl
  | _ => rfl

/-- Every change of the screen is marked to be shown, and no instruction takes a mark away. -/
theorem redraw_result (m : Machine w h) (tall : Bool) (random : UInt8) (i : Instruction) :
    (m.result tall random i).redraw = (i.draws || m.redraw) := by
  cases i with
  | skip _ | logic _ _ _ | awaitKey _ =>
    simp only [result]
    split <;> rfl
  | _ => rfl

theorem counter_result (m : Machine w h) (tall : Bool) (random : UInt8) {i : Instruction}
    (hi : i.steers = false) : (m.result tall random i).counter = m.counter := by
  cases i with
  | leave | jump _ | call _ | skip _ | jumpPlus _ | awaitKey _ => contradiction
  | logic _ _ _ =>
    simp only [result]
    split <;> rfl
  | _ => rfl

section WellFormed

variable {m : Machine w h} (hm : m.WellFormed)
include hm

theorem memory_size_result {tall : Bool} {i : Instruction} (hfree : m.obstacle? tall i = none)
    (random : UInt8) : (m.result tall random i).memory.size = memorySize := by
  have hsize := hm.memory_size
  have hregs := hm.registers_size
  obtain ⟨k, hk⟩ := Int.eq_ofNat_of_zero_le hm.index_nonneg
  cases i with
  | storeDecimal x =>
    have hfit := overrun?_eq_none_iff.mp hfree
    have hlen : (decimalDigits (m.register x)).length = 3 := rfl
    have hrep := m.memory.size_replace (a := k) (by omega) hlen
    simp only [result, hk, hrep, hsize]
  | dump x =>
    have hfit := overrun?_eq_none_iff.mp hfree
    have hx : (x : Nat) < registerCount := x.isLt
    have hblock : (m.registers.block 0 (x + 1)).length = x + 1 :=
      m.registers.length_block (a := 0) (by omega)
    have hrep := m.memory.size_replace (a := k) (by omega) hblock
    simp only [result, hk, hrep, hsize]
  | _ =>
    rw [memory_result m tall random rfl]
    exact hsize

theorem registers_size_result {tall : Bool} {i : Instruction}
    (hfree : m.obstacle? tall i = none) (random : UInt8) :
    (m.result tall random i).registers.size = registerCount := by
  have hsize := hm.memory_size
  have hregs := hm.registers_size
  obtain ⟨k, hk⟩ := Int.eq_ofNat_of_zero_le hm.index_nonneg
  cases i with
  | restore x =>
    have hfit := overrun?_eq_none_iff.mp hfree
    have hx : (x : Nat) < registerCount := x.isLt
    have hblock : (m.memory.block m.index (x + 1)).length = x + 1 := by
      rw [hk]
      exact m.memory.length_block (by omega)
    have hrep := m.registers.size_replace (a := 0) (by omega) hblock
    exact hrep.trans hregs
  | skip _ | logic _ _ _ | awaitKey _ =>
    simp only [result]
    split <;> simpa [writeFlagged, setRegister] using hregs
  | _ => simpa [result, darken, writeFlagged, setRegister] using hregs

theorem index_result_nonneg {tall : Bool} {i : Instruction} (random : UInt8) :
    0 ≤ (m.result tall random i).index := by
  have hindex := hm.index_nonneg
  have hblock (x : Register) : 0 ≤ m.indexAfterBlock x := by
    unfold indexAfterBlock
    split <;> omega
  cases i with
  | setIndex a | addIndex x | pointDigit x =>
    simp only [result]
    omega
  | dump x | restore x => exact hblock x
  | _ =>
    rw [index_result m tall random rfl]
    exact hindex

theorem wellFormed_result {tall : Bool} {i : Instruction} (hfree : m.obstacle? tall i = none)
    (random : UInt8) : (m.result tall random i).WellFormed where
  width_pos := hm.width_pos
  height_pos := hm.height_pos
  memory_size := memory_size_result hm hfree random
  registers_size := registers_size_result hm hfree random
  index_nonneg := index_result_nonneg hm random

theorem wellFormed_advance : m.advance.WellFormed :=
  ⟨hm.width_pos, hm.height_pos, hm.memory_size, hm.registers_size, hm.index_nonneg⟩

end WellFormed

def word (m : Machine w h) : Opcode :=
  .ofBytes (m.memory.get m.counter.toNat) (m.memory.get (m.counter.toNat + 1))

def current (m : Machine w h) : Instruction := .ofOpcode m.word

theorem fetch_eq {m : Machine w h} (hsize : m.memory.size = memorySize) (hpc : 0 ≤ m.counter)
    (hin : m.counter + 1 < memorySize) : m.fetch = .ok m.word := by
  obtain ⟨p, hp⟩ := Int.eq_ofNat_of_zero_le hpc
  have hfetch := m.fetch_of_lt hp (by omega)
  rw [hfetch, word, hp, Int.toNat_natCast]

theorem fetch_outside {m : Machine w h} (hsize : m.memory.size = memorySize)
    (hout : memorySize ≤ m.counter + 1) : m.fetch = .error (.fault (.fetchOutside m.counter)) :=
  if_pos (by omega)

/-- Within memory the program counter moves on by two: the sixteen bits are never used up. -/
theorem advance_eq {m : Machine w h} (hpc : 0 ≤ m.counter) (hin : m.counter + 1 < memorySize) :
    m.advance = { m with counter := m.counter + 2 } := by
  have hmod : (m.counter + 2) % 65536 = m.counter + 2 := by
    simp only [memorySize] at hin
    omega
  simp only [advance, hmod]

end Machine

namespace Console

variable {w h : Nat}

def next (c : Console w h) : Console w h :=
  { c with
    machine := c.machine.advance.result c.tall c.noise.next c.machine.current
    noise := c.noiseAfter c.machine.current }

/-- What a step can do: find no word, meet an obstacle behind the word, or go through. -/
theorem step_cases {c : Console w h} (hm : c.machine.WellFormed) (hpc : 0 ≤ c.machine.counter) :
    (memorySize ≤ c.machine.counter + 1 ∧
      c.step = .failed (.fault (.fetchOutside c.machine.counter)) c) ∨
    (c.machine.counter + 1 < memorySize ∧
      ∃ why, c.machine.advance.obstacle? c.tall c.machine.current = some why ∧
        c.step = .failed why { c with machine := c.machine.advance }) ∨
    (c.machine.counter + 1 < memorySize ∧
      c.machine.advance.obstacle? c.tall c.machine.current = none ∧ c.step = .done c.next) := by
  by_cases hout : memorySize ≤ c.machine.counter + 1
  · left
    simp only [step, Machine.fetch_outside hm.memory_size hout, hout, true_and]
  · right
    have hin : c.machine.counter + 1 < memorySize := by omega
    have hperform := Machine.perform_eq (Machine.wellFormed_advance hm) c.tall c.noise.next
      c.machine.current
    have hstep : c.step = (c.machine.advance.perform c.tall c.noise.next c.machine.current).map
        fun m => { c with machine := m, noise := c.noiseAfter c.machine.current } := by
      simp only [step, Machine.fetch_eq hm.memory_size hpc hin]
      rfl
    rw [hstep, hperform]
    cases hobs : c.machine.advance.obstacle? c.tall c.machine.current with
    | some why =>
      have hnoise : c.noiseAfter c.machine.current = c.noise := by
        simp [noiseAfter, Machine.isRandom_of_obstacle hobs]
      refine .inl ⟨hin, why, rfl, ?_⟩
      simp only [Option.elim_some, Outcome.map, hnoise]
    | none => exact .inr ⟨hin, rfl, rfl⟩

end Console
end Chip8
