import Chip8.Instruction

/-!
# Decoding

Reading a word gives an instruction exactly when the instruction spells that word, the words without
a meaning aside.
-/

namespace Chip8
namespace Instruction

def isDefined : Instruction → Bool
  | .ignored _ => false
  | _ => true

theorem fields_address {c : Opcode} {f : Nat} {a : Fin 4096} (h : c.toNat = 4096 * f + a) :
    c.family = f ∧ c.nnn = a := by
  have ha := a.isLt
  refine ⟨?_, Fin.ext ?_⟩
  · unfold Opcode.family
    omega
  · show c.toNat % 4096 = a
    omega

theorem fields_wordXB {c : Opcode} {f b : Nat} {x : Register} (hb : b < 256)
    (h : c.toNat = wordXB f x b) : c.family = f ∧ c.x = x ∧ c.nn.toNat = b := by
  have hx := x.isLt
  simp only [wordXB] at h
  refine ⟨?_, Fin.ext ?_, ?_⟩
  · unfold Opcode.family
    omega
  · show c.toNat / 256 % 16 = x
    omega
  · show (UInt8.ofNat c.toNat).toNat = b
    rw [UInt8.toNat_ofNat']
    omega

theorem fields_wordXY {c : Opcode} {f n : Nat} {x y : Register} (hn : n < 16)
    (h : c.toNat = wordXY f x y n) : c.family = f ∧ c.x = x ∧ c.y = y ∧ c.n.val = n := by
  have hx := x.isLt
  have hy := y.isLt
  simp only [wordXY] at h
  refine ⟨?_, Fin.ext ?_, Fin.ext ?_, ?_⟩
  · unfold Opcode.family
    omega
  · show c.toNat / 256 % 16 = x
    omega
  · show c.toNat / 16 % 16 = y
    omega
  · show c.toNat % 16 = n
    omega

theorem toNat_eq_address {c : Opcode} {f : Nat} (hf : c.toNat / 4096 = f) :
    c.toNat = 4096 * f + c.nnn := by
  have ha : (c.nnn : Nat) = c.toNat % 4096 := rfl
  omega

theorem toNat_eq_wordXB {c : Opcode} {f b : Nat} (hf : c.toNat / 4096 = f)
    (hb : c.toNat % 256 = b) : c.toNat = wordXB f c.x b := by
  have hx : (c.x : Nat) = c.toNat / 256 % 16 := rfl
  unfold wordXB
  omega

theorem toNat_eq_wordXY {c : Opcode} {f : Nat} (hf : c.toNat / 4096 = f) :
    c.toNat = wordXY f c.x c.y c.n := by
  have hx : (c.x : Nat) = c.toNat / 256 % 16 := rfl
  have hy : (c.y : Nat) = c.toNat / 16 % 16 := rfl
  have hn : (c.n : Nat) = c.toNat % 16 := rfl
  unfold wordXY
  omega

theorem ofOpcode_arithmetic {c : Opcode} {n : Nat} {x y : Register} (hn : n < 16)
    (h : c.toNat = wordXY 0x8 x y n) :
    ofOpcode c = arithmetic c ∧ c.x = x ∧ c.y = y ∧ c.n.val = n := by
  obtain ⟨hf, hfields⟩ := fields_wordXY hn h
  exact ⟨by simp only [ofOpcode, hf], hfields⟩

theorem ofOpcode_miscellaneous {c : Opcode} {b : Nat} {x : Register} (hb : b < 256)
    (h : c.toNat = wordXB 0xf x b) : ofOpcode c = miscellaneous c ∧ c.x = x ∧ c.nn.toNat = b := by
  obtain ⟨hf, hfields⟩ := fields_wordXB hb h
  exact ⟨by simp only [ofOpcode, hf], hfields⟩

theorem ofOpcode_skip {c : Opcode} {condition : Condition}
    (h : c.toNat = (skip condition).code) : ofOpcode c = .skip condition := by
  cases condition with
  | equal x b | different x b =>
    obtain ⟨hf, hx, hb⟩ := fields_wordXB b.toNat_lt h
    simp only [ofOpcode, hf, hx, UInt8.toNat_inj.mp hb]
  | same x y | distinct x y =>
    obtain ⟨hf, hx, hy, hn⟩ := fields_wordXY (n := 0) (by decide) h
    have hzero : c.n = 0 := Fin.ext hn
    simp only [ofOpcode, hf, hx, hy, hzero, if_true]
  | pressed x =>
    obtain ⟨hf, hx, hb⟩ := fields_wordXB (b := 0x9e) (by decide) h
    have hbyte : c.nn = 0x9e := UInt8.toNat_inj.mp hb
    simp only [ofOpcode, hf, hx, hbyte, if_true]
  | released x =>
    obtain ⟨hf, hx, hb⟩ := fields_wordXB (b := 0xa1) (by decide) h
    have hbyte : c.nn = 0xa1 := UInt8.toNat_inj.mp hb
    have hne : ¬(0xa1 : UInt8) = 0x9e := by decide
    simp only [ofOpcode, hf, hx, hbyte, if_neg hne, if_true]

/-- A word that an instruction spells is read as this instruction. -/
theorem ofOpcode_of_code {c : Opcode} {i : Instruction} (hi : i.isDefined = true)
    (h : c.toNat = i.code) : ofOpcode c = i := by
  have hword {k : UInt16} (hk : c.toNat = k.toNat) : c.word = k := UInt16.toNat_inj.mp hk
  cases i with
  | clear =>
    have hf : c.family = 0 := by rw [Opcode.family, h]; rfl
    simp only [ofOpcode, hf, hword (k := 0x00e0) h, if_true]
  | leave =>
    have hf : c.family = 0 := by rw [Opcode.family, h]; rfl
    have hne : ¬(0x00ee : UInt16) = 0x00e0 := by decide
    simp only [ofOpcode, hf, hword (k := 0x00ee) h, if_neg hne, if_true]
  | jump a =>
    obtain ⟨hf, ha⟩ := fields_address (f := 1) h
    simp only [ofOpcode, hf, ha]
  | call a =>
    obtain ⟨hf, ha⟩ := fields_address (f := 2) h
    simp only [ofOpcode, hf, ha]
  | setIndex a =>
    obtain ⟨hf, ha⟩ := fields_address (f := 10) h
    simp only [ofOpcode, hf, ha]
  | jumpPlus a =>
    obtain ⟨hf, ha⟩ := fields_address (f := 11) h
    simp only [ofOpcode, hf, ha]
  | skip condition => exact ofOpcode_skip h
  | set x b | add x b | random x b =>
    obtain ⟨hf, hx, hb⟩ := fields_wordXB b.toNat_lt h
    simp only [ofOpcode, hf, hx, UInt8.toNat_inj.mp hb]
  | draw x y n =>
    obtain ⟨hf, hx, hy, hn⟩ := fields_wordXY n.isLt h
    have hrows : c.n = n := Fin.ext hn
    simp only [ofOpcode, hf, hx, hy, hrows]
  | copy x y =>
    obtain ⟨hc, hx, hy, hn⟩ := ofOpcode_arithmetic (n := 0x0) (by decide) h
    simp only [hc, arithmetic, hx, hy, hn]
  | logic op x y =>
    cases op with
    | or =>
      obtain ⟨hc, hx, hy, hn⟩ := ofOpcode_arithmetic (n := 0x1) (by decide) h
      simp only [hc, arithmetic, hx, hy, hn]
    | and =>
      obtain ⟨hc, hx, hy, hn⟩ := ofOpcode_arithmetic (n := 0x2) (by decide) h
      simp only [hc, arithmetic, hx, hy, hn]
    | xor =>
      obtain ⟨hc, hx, hy, hn⟩ := ofOpcode_arithmetic (n := 0x3) (by decide) h
      simp only [hc, arithmetic, hx, hy, hn]
  | sum x y =>
    obtain ⟨hc, hx, hy, hn⟩ := ofOpcode_arithmetic (n := 0x4) (by decide) h
    simp only [hc, arithmetic, hx, hy, hn]
  | subtract x y =>
    obtain ⟨hc, hx, hy, hn⟩ := ofOpcode_arithmetic (n := 0x5) (by decide) h
    simp only [hc, arithmetic, hx, hy, hn]
  | shift op x y =>
    cases op with
    | right =>
      obtain ⟨hc, hx, hy, hn⟩ := ofOpcode_arithmetic (n := 0x6) (by decide) h
      simp only [hc, arithmetic, hx, hy, hn]
    | left =>
      obtain ⟨hc, hx, hy, hn⟩ := ofOpcode_arithmetic (n := 0xe) (by decide) h
      simp only [hc, arithmetic, hx, hy, hn]
  | subtractFrom x y =>
    obtain ⟨hc, hx, hy, hn⟩ := ofOpcode_arithmetic (n := 0x7) (by decide) h
    simp only [hc, arithmetic, hx, hy, hn]
  | readDelay x =>
    obtain ⟨hc, hx, hb⟩ := ofOpcode_miscellaneous (b := 0x07) (by decide) h
    simp only [hc, miscellaneous, hx, hb]
  | awaitKey x =>
    obtain ⟨hc, hx, hb⟩ := ofOpcode_miscellaneous (b := 0x0a) (by decide) h
    simp only [hc, miscellaneous, hx, hb]
  | setDelay x =>
    obtain ⟨hc, hx, hb⟩ := ofOpcode_miscellaneous (b := 0x15) (by decide) h
    simp only [hc, miscellaneous, hx, hb]
  | setSound x =>
    obtain ⟨hc, hx, hb⟩ := ofOpcode_miscellaneous (b := 0x18) (by decide) h
    simp only [hc, miscellaneous, hx, hb]
  | addIndex x =>
    obtain ⟨hc, hx, hb⟩ := ofOpcode_miscellaneous (b := 0x1e) (by decide) h
    simp only [hc, miscellaneous, hx, hb]
  | pointDigit x =>
    obtain ⟨hc, hx, hb⟩ := ofOpcode_miscellaneous (b := 0x29) (by decide) h
    simp only [hc, miscellaneous, hx, hb]
  | storeDecimal x =>
    obtain ⟨hc, hx, hb⟩ := ofOpcode_miscellaneous (b := 0x33) (by decide) h
    simp only [hc, miscellaneous, hx, hb]
  | dump x =>
    obtain ⟨hc, hx, hb⟩ := ofOpcode_miscellaneous (b := 0x55) (by decide) h
    simp only [hc, miscellaneous, hx, hb]
  | restore x =>
    obtain ⟨hc, hx, hb⟩ := ofOpcode_miscellaneous (b := 0x65) (by decide) h
    simp only [hc, miscellaneous, hx, hb]
  | ignored c => contradiction

theorem ofOpcode_eq_iff {c : Opcode} {i : Instruction} (hi : i.isDefined = true) :
    ofOpcode c = i ↔ c.toNat = i.code :=
  ⟨fun h => by rw [← h, code_ofOpcode], ofOpcode_of_code hi⟩

theorem code_lt (i : Instruction) : i.code < 65536 := by
  cases i with
  | ignored c => exact c.toNat_lt
  | logic op x y | shift op x y =>
    cases op <;> simp only [code, wordXY] <;> omega
  | set x b | add x b | random x b =>
    have hb := b.toNat_lt
    simp only [code, wordXB]
    omega
  | skip condition =>
    cases condition with
    | equal x b | different x b =>
      have hb := b.toNat_lt
      simp only [code, wordXB]
      omega
    | _ =>
      simp only [code, wordXB, wordXY]
      omega
  | _ =>
    simp only [code, wordXB, wordXY]
    omega

/-- An instruction with a meaning is read from the word that it is written as. -/
theorem ofOpcode_toOpcode {i : Instruction} (hi : i.isDefined = true) :
    ofOpcode i.toOpcode = i := by
  refine ofOpcode_of_code hi ?_
  show (UInt16.ofNat i.code).toNat = i.code
  rw [UInt16.toNat_ofNat', Nat.mod_eq_of_lt i.code_lt]

end Instruction
end Chip8
