import Chip8.Proofs.Writing

/-!
# Registers kept in memory

One word writes the registers up to its own to memory, and another reads them back. Whatever happens
in between, memory gives back what it was given; and what is read and written again is there already.
On the first variant the address register moves on behind the block, so that the next one follows.
-/

namespace Chip8

/-- A machine with all its memory and registers, and with room at the address register for the
registers up to one. -/
structure Machine.HasRoom {w h : Nat} (m : Machine w h) (a : Nat) (x : Register) : Prop where
  memory_size : m.memory.size = memorySize
  registers_size : m.registers.size = registerCount
  index : m.index = a
  fits : a + x + 1 ≤ memorySize

namespace Machine.HasRoom

variable {w h : Nat} {m : Machine w h} {a : Nat} {x : Register}

theorem registers_within (hm : m.HasRoom a x) : 0 + (x + 1) ≤ m.registers.size := by
  rw [hm.registers_size, Nat.zero_add]
  exact x.isLt

theorem block_within (hm : m.HasRoom a x) : a + (x + 1) ≤ m.memory.size :=
  hm.memory_size ▸ hm.fits

end Machine.HasRoom

namespace Console

variable {w h : Nat}

/-- All that is different after the registers up to one were written to an address. -/
structure Dumps (c : Console w h) (a : Nat) (x : Register) (after : Console w h) : Prop where
  memory_size : after.machine.memory.size = memorySize
  written : ∀ r, r ≤ x → after.machine.memory.get (a + r) = c.machine.register r
  kept : ∀ k, k < a ∨ a + x < k → after.machine.memory.get k = c.machine.memory.get k
  index : after.machine.index = if c.machine.variant = .chip8 then (a + x + 1 : Int) else a
  rest : after = { c with machine := { c.machine.advance with
    memory := after.machine.memory
    index := after.machine.index } }

structure Restores (c : Console w h) (a : Nat) (x : Register) (after : Console w h) : Prop where
  registers_size : after.machine.registers.size = registerCount
  read : ∀ r, r ≤ x → after.machine.register r = c.machine.memory.get (a + r)
  kept : ∀ r, x < r → after.machine.register r = c.machine.register r
  index : after.machine.index = if c.machine.variant = .chip8 then (a + x + 1 : Int) else a
  rest : after = { c with machine := { c.machine.advance with
    registers := after.machine.registers
    index := after.machine.index } }

variable {c : Console w h} {a : Nat} {x : Register}

theorem indexAfterBlock_advance (hm : c.machine.HasRoom a x) :
    c.machine.advance.indexAfterBlock x =
      if c.machine.variant = .chip8 then (a + x + 1 : Int) else a := by
  rw [Machine.indexAfterBlock]
  simp only [Machine.advance, hm.index]

theorem access_of_hasRoom (hm : c.machine.HasRoom a x) (i : Instruction)
    (next : Outcome (Machine w h)) : c.machine.advance.access i (x + 1) next = next := by
  refine if_pos ?_
  have hfits := hm.fits
  simp only [Machine.advance, hm.index, hm.memory_size]
  omega

theorem execute_dump {word : Opcode} (hm : c.machine.HasRoom a word.x)
    (hword : (Form.lastByte 0xf 0x55).Holds word) :
    ∃ after, c.execute word = .done after ∧ c.Dumps a word.x after := by
  have hi : Instruction.ofOpcode word = .dump word.x :=
    (Instruction.ofOpcode_eq_iff rfl).mpr (Instruction.toNat_eq_wordXB hword.1 hword.2)
  have hget := Bytes.get_replace_block _ _ hm.block_within hm.registers_within
  refine ⟨_, by rw [execute, Machine.execute, hi, Machine.perform, access_of_hasRoom hm]; rfl, ?_⟩
  constructor
  case index => exact indexAfterBlock_advance hm
  case rest => rfl
  all_goals simp only [Machine.advance, hm.index]
  case memory_size =>
    have hlength := c.machine.registers.length_block hm.registers_within
    exact (c.machine.memory.size_replace hm.block_within hlength).trans hm.memory_size
  case written =>
    intro r hr
    have hle : (r : Nat) ≤ word.x := hr
    have hoffset : 0 + (a + (r : Nat) - a) = r := by omega
    have hbyte := hget (a + r)
    rw [if_pos (by omega), hoffset] at hbyte
    exact hbyte
  case kept =>
    intro k hk
    have hbyte := hget k
    rw [if_neg (by omega)] at hbyte
    exact hbyte

theorem execute_restore {word : Opcode} (hm : c.machine.HasRoom a word.x)
    (hword : (Form.lastByte 0xf 0x65).Holds word) :
    ∃ after, c.execute word = .done after ∧ c.Restores a word.x after := by
  have hi : Instruction.ofOpcode word = .restore word.x :=
    (Instruction.ofOpcode_eq_iff rfl).mpr (Instruction.toNat_eq_wordXB hword.1 hword.2)
  have hget := Bytes.get_replace_block _ _ hm.registers_within hm.block_within
  refine ⟨_, by rw [execute, Machine.execute, hi, Machine.perform, access_of_hasRoom hm]; rfl, ?_⟩
  constructor
  case index => exact indexAfterBlock_advance hm
  case rest => rfl
  all_goals simp only [Machine.advance, Machine.register, hm.index]
  case registers_size =>
    have hlength := c.machine.memory.length_block hm.block_within
    exact (c.machine.registers.size_replace hm.registers_within hlength).trans hm.registers_size
  case read =>
    intro r hr
    have hle : (r : Nat) ≤ word.x := hr
    have hbyte := hget r
    rw [if_pos (by omega)] at hbyte
    exact hbyte
  case kept =>
    intro r hr
    have hlt : (word.x : Nat) < r := hr
    have hbyte := hget r
    rw [if_neg (by omega)] at hbyte
    exact hbyte

variable {d stored loaded : Console w h}

theorem register_of_dumps_restores (hdumps : c.Dumps a x stored)
    (hmemory : d.machine.memory = stored.machine.memory) (hrestores : d.Restores a x loaded)
    {r : Register} (hr : r ≤ x) : loaded.machine.register r = c.machine.register r := by
  rw [hrestores.read r hr, hmemory, hdumps.written r hr]

theorem memory_of_restores_dumps (hm : c.machine.HasRoom a x) (hrestores : c.Restores a x loaded)
    (hmemory : d.machine.memory = loaded.machine.memory)
    (hregisters : d.machine.registers = loaded.machine.registers) (hdumps : d.Dumps a x stored) :
    stored.machine.memory = c.machine.memory := by
  have hloaded : loaded.machine.memory = c.machine.memory :=
    congrArg (fun e => e.machine.memory) hrestores.rest
  refine Bytes.ext (hdumps.memory_size.trans hm.memory_size.symm) fun k _ => ?_
  by_cases hin : a ≤ k ∧ k ≤ a + x
  · -- A cell of the block is the one of a register.
    have hx := x.isLt
    obtain ⟨j, rfl⟩ := Nat.exists_eq_add_of_le hin.1
    let r : Register := ⟨j, by omega⟩
    have hr : r ≤ x := Fin.le_def.mpr (Nat.add_le_add_iff_left.mp hin.2)
    calc stored.machine.memory.get (a + r)
        = d.machine.register r := hdumps.written r hr
      _ = loaded.machine.register r := congrArg (Bytes.get · r) hregisters
      _ = c.machine.memory.get (a + r) := hrestores.read r hr
  · rw [hdumps.kept k (by omega), hmemory, hloaded]

/-- On the first variant there is room for another block behind the one that was written. -/
theorem hasRoom_of_dumps (hm : c.machine.HasRoom a x) (hdumps : c.Dumps a x stored)
    (hchip : c.machine.variant = .chip8) {y : Register} (hfits : a + x + y + 2 ≤ memorySize) :
    stored.machine.HasRoom (a + x + 1) y where
  memory_size := hdumps.memory_size
  registers_size :=
    (congrArg (fun e => e.machine.registers.size) hdumps.rest).trans hm.registers_size
  index := by rw [hdumps.index, if_pos hchip]; omega
  fits := by omega

theorem memory_of_dumps_dumps {y : Register} {next : Console w h} (hfirst : c.Dumps a x stored)
    (hsecond : stored.Dumps (a + x + 1) y next) :
    (∀ r, r ≤ x → next.machine.memory.get (a + r) = c.machine.register r) ∧
      (∀ r, r ≤ y → next.machine.memory.get (a + x + 1 + r) = c.machine.register r) ∧
      ∀ k, k < a ∨ a + x + 1 + y < k → next.machine.memory.get k = c.machine.memory.get k := by
  refine ⟨fun r hr => ?_, fun r hr => ?_, fun k hk => ?_⟩
  · have hle : (r : Nat) ≤ x := hr
    rw [hsecond.kept _ (by omega), hfirst.written r hr]
  · have hregister : stored.machine.register r = c.machine.register r :=
      congrArg (fun e => e.machine.register r) hfirst.rest
    rw [hsecond.written r hr, hregister]
  · rw [hsecond.kept k (by omega), hfirst.kept k (by omega)]

/-- Registers that were written to memory are read back from the same place, and memory that was
read into registers is not changed when they are written to the same place. On the first variant
blocks that are written one after the other lie side by side. -/
theorem dump_restore_inverse {dump restore : Opcode} (hdump : (Form.lastByte 0xf 0x55).Holds dump)
    (hrestore : (Form.lastByte 0xf 0x65).Holds restore) (hx : restore.x = dump.x)
    (hm : c.machine.HasRoom a dump.x) :
    (∃ stored, c.execute dump = .done stored ∧ c.Dumps a dump.x stored ∧
      ∀ d : Console w h, d.machine.memory = stored.machine.memory →
        d.machine.registers.size = registerCount → d.machine.index = a →
        ∃ loaded, d.execute restore = .done loaded ∧ d.Restores a dump.x loaded ∧
          (∀ r, r ≤ dump.x → loaded.machine.register r = c.machine.register r) ∧
          (∀ r, dump.x < r → loaded.machine.register r = d.machine.register r) ∧
          ∀ k, k < a ∨ a + dump.x < k →
            loaded.machine.memory.get k = c.machine.memory.get k) ∧
    (∃ loaded, c.execute restore = .done loaded ∧ c.Restores a dump.x loaded ∧
      ∀ d : Console w h, d.machine.memory = loaded.machine.memory →
        d.machine.registers = loaded.machine.registers → d.machine.index = a →
        ∃ stored, d.execute dump = .done stored ∧ d.Dumps a dump.x stored ∧
          stored.machine.memory = c.machine.memory) ∧
    (c.machine.variant = .chip8 → ∀ again : Opcode, (Form.lastByte 0xf 0x55).Holds again →
      a + dump.x + again.x + 2 ≤ memorySize →
      ∃ first second, c.execute dump = .done first ∧ first.execute again = .done second ∧
        (∀ r, r ≤ dump.x → second.machine.memory.get (a + r) = c.machine.register r) ∧
        (∀ r, r ≤ again.x →
          second.machine.memory.get (a + dump.x + 1 + r) = c.machine.register r) ∧
        (∀ k, k < a ∨ a + dump.x + 1 + again.x < k →
          second.machine.memory.get k = c.machine.memory.get k) ∧
        second.machine.index = (a + dump.x + again.x + 2 : Nat)) := by
  obtain ⟨stored, hstored, hdumps⟩ := execute_dump hm hdump
  refine ⟨⟨stored, hstored, hdumps, ?_⟩, ?_, ?_⟩
  · intro d hmemory hregisters hindex
    have hroom : d.machine.HasRoom a restore.x :=
      ⟨hmemory ▸ hdumps.memory_size, hregisters, hindex, hx ▸ hm.fits⟩
    obtain ⟨loaded, hloaded, hrestores⟩ := execute_restore hroom hrestore
    rw [hx] at hrestores
    have hkept : loaded.machine.memory = d.machine.memory :=
      congrArg (fun e => e.machine.memory) hrestores.rest
    refine ⟨loaded, hloaded, hrestores,
      fun r => register_of_dumps_restores hdumps hmemory hrestores, hrestores.kept, fun k hk => ?_⟩
    rw [hkept, hmemory, hdumps.kept k hk]
  · have hfirst : c.machine.HasRoom a restore.x := hx ▸ hm
    obtain ⟨loaded, hloaded, hrestores⟩ := execute_restore hfirst hrestore
    rw [hx] at hrestores
    have hkept : loaded.machine.memory = c.machine.memory :=
      congrArg (fun e => e.machine.memory) hrestores.rest
    refine ⟨loaded, hloaded, hrestores, fun d hmemory hregisters hindex => ?_⟩
    have hroom : d.machine.HasRoom a dump.x :=
      ⟨by rw [hmemory, hkept, hm.memory_size], by rw [hregisters, hrestores.registers_size], hindex,
        hm.fits⟩
    obtain ⟨stored, hstored, hdumps⟩ := execute_dump hroom hdump
    exact ⟨stored, hstored, hdumps,
      memory_of_restores_dumps hm hrestores hmemory hregisters hdumps⟩
  · intro hchip again hagain hfits
    have hvariant : stored.machine.variant = .chip8 :=
      (congrArg (fun e => e.machine.variant) hdumps.rest).trans hchip
    obtain ⟨second, hsecond, hnext⟩ := execute_dump (hasRoom_of_dumps hm hdumps hchip hfits) hagain
    obtain ⟨hfirst, hbehind, hkept⟩ := memory_of_dumps_dumps hdumps hnext
    refine ⟨stored, second, hstored, hsecond, hfirst, hbehind, hkept, ?_⟩
    rw [hnext.index, if_pos hvariant]
    omega

/-- Six registers at the end of memory, read back after all registers were cleared, and one more
register behind them. -/
theorem dump_restore_inverse_at_end :
    let c : Console 0 0 :=
      ⟨{ (Machine.ofWord 0 0 .chip8 0x00 0x00).setRegister 5 7 with index := 4089 }, Noise.cycle [0],
        false⟩
    (Form.lastByte 0xf 0x55).Holds ⟨0xf555⟩ ∧ (Form.lastByte 0xf 0x65).Holds ⟨0xf565⟩ ∧
      (Opcode.mk 0xf565).x = (Opcode.mk 0xf555).x ∧ c.machine.HasRoom 4089 (Opcode.mk 0xf555).x ∧
      (∃ stored loaded, c.execute ⟨0xf555⟩ = .done stored ∧ stored.machine.index = 4095 ∧
        ({ stored with machine := { stored.machine with
            registers := .blank registerCount
            index := 4089 } } : Console 0 0).execute ⟨0xf565⟩ = .done loaded ∧
        loaded.machine.register 5 = 7 ∧ loaded.machine.register 6 = 0) ∧
      ∃ first second, c.execute ⟨0xf555⟩ = .done first ∧ first.execute ⟨0xf055⟩ = .done second ∧
        second.machine.memory.get 4094 = 7 ∧ second.machine.memory.get 4095 = 0 ∧
        second.machine.index = 4096 := by
  intro c
  have hdump : (Form.lastByte 0xf 0x55).Holds ⟨0xf555⟩ := by decide
  have hrestore : (Form.lastByte 0xf 0x65).Holds ⟨0xf565⟩ := by decide
  have hm : c.machine.HasRoom 4089 (Opcode.mk 0xf555).x :=
    { memory_size := by simp [c, Machine.setRegister, Machine.ofWord]
      registers_size := rfl
      index := rfl
      fits := by decide }
  obtain ⟨⟨stored, hstored, hdumps, hback⟩, -, hnext⟩ :=
    dump_restore_inverse hdump hrestore (by decide) hm
  refine ⟨hdump, hrestore, by decide, hm, ?_, ?_⟩
  · let cleared : Console 0 0 := { stored with machine := { stored.machine with
      registers := .blank registerCount
      index := 4089 } }
    obtain ⟨loaded, hloaded, -, hread, hkept, -⟩ := hback cleared rfl (Bytes.size_blank _) rfl
    exact ⟨stored, loaded, hstored, hdumps.index, hloaded, hread 5 (by decide),
      hkept 6 (by decide)⟩
  · obtain ⟨first, second, hfirst, hsecond, hin, hbehind, -, hindex⟩ :=
      hnext rfl ⟨0xf055⟩ (by decide) (by decide)
    exact ⟨first, second, hfirst, hsecond, hin 5 (by decide), hbehind 0 (by decide), hindex⟩

end Console
end Chip8
