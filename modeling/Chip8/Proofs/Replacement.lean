import Chip8.Proofs.Course
import Chip8.Proofs.Quit
import Chip8.Proofs.Restart

/-!
# Another program, or none

A player who asks for another program gets all of it or nothing: the program kept, the machine, the
picture, the title and the mode change together, and only if the program can be read and fits. In
both cases the kept program is the one that the machine was last loaded with. A session has this
property from its start and never loses it, so a reset always starts again what is played.
-/

namespace Chip8

namespace Desk

/-- The next pick leads to a program that can be had. -/
structure Offers (d : Desk) (p : Path) (program : List UInt8) : Prop where
  pick : d.pick? = some p
  read : d.read p = .ok program
  fits : program.length ≤ programCapacity

/-- Nothing is picked next, or the picked file cannot be read, or it is too large. -/
inductive Withholds (d : Desk) : Prop
  | cancelled (hpick : d.pick? = none)
  | unreadable {p : Path} {why : FileError} (hpick : d.pick? = some p)
      (hread : d.read p = .error why)
  | tooLarge {p : Path} {program : List UInt8} (hpick : d.pick? = some p)
      (hread : d.read p = .ok program) (hlarge : programCapacity < program.length)

theorem exists_offers_of_not_withholds {d : Desk} (hd : ¬d.Withholds) :
    ∃ p program, d.Offers p program := by
  cases hpick : d.pick? with
  | none => exact absurd (.cancelled hpick) hd
  | some p =>
    cases hread : d.read p with
    | error why => exact absurd (.unreadable hpick hread) hd
    | ok program =>
      by_cases hfits : program.length ≤ programCapacity
      · exact ⟨p, program, hpick, hread, hfits⟩
      · exact absurd (.tooLarge hpick hread (Nat.lt_of_not_le hfits)) hd

theorem opened?_of_withholds {d : Desk} (hnul : d.NextNulFree) (hd : d.Withholds) :
    d.opened? = none := by
  cases hd with
  | cancelled hpick => simp only [opened?, hpick]
  | unreadable hpick hread =>
    have hfile := readProgram_of_next hnul hpick
    rw [hread] at hfile
    simp only [opened?, hpick, hfile]
    rfl
  | tooLarge hpick hread hlarge =>
    have hfile := readProgram_of_next hnul hpick
    rw [hread] at hfile
    simp only [opened?, hpick, hfile]
    exact if_neg (Nat.not_le.mpr hlarge)

end Desk

theorem Tone.update_false (t : Tone) : (t.update false).1 = { t with playing := false } := by
  cases t with
  | mk sampleRate frequency volume playing sound hfrequency => cases playing <;> rfl

/-- A move neither sees the mark that the screen is to be shown nor takes it away. -/
theorem Console.move_marked {w h : Nat} (c : Console w h) (a : Move) :
    (c.mapMachine .marked).move a = (c.move a).map (mapMachine .marked) :=
  (List.cons.inj (history_marked c.machine c.noise c.tall [a])).1

namespace Session

variable {w h : Nat}

def stops (s : Session w h) : List Request :=
  if s.tone.playing then [.stopSound s.tone.sound] else []

theorem requests_setTone_false (s : Session w h) :
    Effect.requests (s.setTone false).2 = s.stops := by
  unfold setTone stops Tone.update
  cases s.tone.playing <;> rfl

theorem requests_changeProgram_of_pick {s : Session w h} {p : Path}
    (hpick : s.desk.pick? = some p) :
    Effect.requests s.changeProgram.effects = s.stops ++ .pickProgram ::
      Effect.requests ({ (s.setTone false).1 with desk := s.desk.afterPick }.loadPath p).effects := by
  simp only [changeProgram, hpick, Effect.requests_append, requests_setTone_false]
  rfl

theorem requests_changeProgram_of_withholds {s : Session w h} (hnul : s.desk.NextNulFree)
    (hwithheld : s.desk.Withholds) :
    ∃ text title, Effect.requests s.changeProgram.effects =
      s.stops ++ [.pickProgram, .notify text title] := by
  cases hwithheld with
  | cancelled hpick =>
    simp only [changeProgram, hpick, Effect.requests_append, requests_setTone_false]
    exact ⟨_, _, rfl⟩
  | @unreadable p why hpick hread =>
    have hrefused : s.desk.afterPick.readProgram p = .error (.programUnreadable p.toString why) :=
      (Desk.readProgram_of_next hnul hpick).trans (by rw [hread]; rfl)
    simp only [requests_changeProgram_of_pick hpick, loadPath, hrefused]
    exact ⟨_, _, rfl⟩
  | @tooLarge p program hpick hread hlarge =>
    have hbytes : s.desk.afterPick.readProgram p = .ok program :=
      (Desk.readProgram_of_next hnul hpick).trans (by rw [hread]; rfl)
    simp only [requests_changeProgram_of_pick hpick, loadPath, hbytes, replaceProgram,
      Machine.reset_of_lt _ hlarge]
    exact ⟨_, _, rfl⟩

theorem requests_replaceProgram {s : Session w h} {program : List UInt8} {m : Machine w h}
    (hreset : s.machine.reset program = .done m) (p : Path) :
    Effect.requests (s.replaceProgram p program).effects =
      [.fill s.display.background, .present, .retitle p.stem] := by
  simp only [replaceProgram, hreset]
  rfl

theorem requests_changeProgram_of_offers {s : Session w h} (hnul : s.desk.NextNulFree) {p : Path}
    {program : List UInt8} (hoffered : s.desk.Offers p program) :
    Effect.requests s.changeProgram.effects =
      s.stops ++ [.pickProgram, .fill s.display.background, .present, .retitle p.stem] := by
  have hbytes : s.desk.afterPick.readProgram p = .ok program :=
    (Desk.readProgram_of_next hnul hoffered.pick).trans (by rw [hoffered.read]; rfl)
  have hreplaced := requests_replaceProgram (s := { (s.setTone false).1 with desk := s.desk.afterPick })
    (s.machine.reset_eq hoffered.fits) p
  simp only [requests_changeProgram_of_pick hoffered.pick, loadPath, hbytes]
  exact congrArg (fun rest => s.stops ++ .pickProgram :: rest) hreplaced

def refused (s : Session w h) : Session w h :=
  { s with tone := { s.tone with playing := false }, desk := s.desk.afterPick }

/-- A session that has got another program, on another machine and with an empty picture. -/
def replaced (s : Session w h) (program : List UInt8) (m : Machine w h) : Session w h :=
  { s with
    console := { s.console with machine := m }
    display := { s.display with canvas := .plain w h s.display.background.toFloat }
    tone := { s.tone with playing := false }
    desk := s.desk.afterPick
    program := program
    mode := .running }

theorem outcome_changeProgram_of_withholds {s : Session w h} (hnul : s.desk.NextNulFree)
    (hwithheld : s.desk.Withholds) : s.changeProgram.outcome = .done s.refused := by
  rw [outcome_changeProgram_of_unopened hnul (Desk.opened?_of_withholds hnul hwithheld), refused,
    ← Tone.update_false]
  rfl

theorem outcome_changeProgram_of_offers {s : Session w h} (hnul : s.desk.NextNulFree) {p : Path}
    {program : List UInt8} (hoffered : s.desk.Offers p program) :
    s.changeProgram.outcome = .done (s.replaced program (s.machine.restarted program)) := by
  have hbytes : s.desk.readProgram p = .ok program :=
    (Desk.readProgram_of_next hnul hoffered.pick).trans (by rw [hoffered.read]; rfl)
  have hsession (m : Machine w h) : s.replaced program m =
      { s.renewed m with desk := s.desk.afterPick, program := program, mode := .running } := by
    rw [replaced, ← Tone.update_false]
    rfl
  rw [hsession]
  exact outcome_changeProgram_of_opened hoffered.pick hbytes (s.machine.reset_eq hoffered.fits)

/-- The machine was loaded with the kept program, and instructions, the timers and keys have brought
it to where it is. Whether its screen is still to be shown is left open. -/
structure Runs (s : Session w h) : Prop where
  program_fits : s.program.length ≤ programCapacity
  played : ∃ (noise : Noise) (moves : List Move),
    s.console.mapMachine .marked =
      (Console.mk (Machine.loaded w h s.machine.variant s.program).marked noise
        s.console.tall).play moves

theorem runs_of_marked {s : Session w h} (hfits : s.program.length ≤ programCapacity)
    {v : Variant} (hloaded : s.machine.marked = (Machine.loaded w h v s.program).marked) :
    s.Runs := by
  have hvariant : s.machine.variant = v := congrArg Machine.variant hloaded
  refine ⟨hfits, s.console.noise, [], ?_⟩
  rw [hvariant]
  exact congrArg (Console.mk · s.console.noise s.console.tall) hloaded

theorem runs_of_move {s t : Session w h} (hs : s.Runs) (hprogram : t.program = s.program)
    (a : Move) (hmoved : t.console = (s.console.move a).state) : t.Runs := by
  obtain ⟨noise, moves, hplayed⟩ := hs.played
  have hvariant : t.machine.variant = s.machine.variant := by
    rw [machine, hmoved]
    exact s.console.variant_move a
  have htall : t.console.tall = s.console.tall := by
    rw [hmoved]
    exact s.console.tall_move a
  refine ⟨hprogram ▸ hs.program_fits, noise, moves ++ [a], ?_⟩
  rw [hvariant, htall, hprogram, Console.play_concat, ← hplayed, Console.move_marked,
    Outcome.state_map, ← hmoved]

theorem runs_of_restarted {s : Session w h} {m m' : Machine w h} {program : List UInt8}
    (hreset : m.reset program = .done m') (hmachine : s.machine = m')
    (hprogram : s.program = program) : s.Runs := by
  obtain ⟨hfits, hm⟩ := Machine.eq_restarted_of_reset hreset
  refine runs_of_marked (v := m.variant) (hprogram ▸ hfits) ?_
  rw [hmachine, hm, hprogram]
  rfl

theorem runs_reacts {s t : Session w h} (hs : s.Runs) (hst : Reacts s t) : t.Runs := by
  cases hst with
  | restart hreset | replace hreset => exact runs_of_restarted hreset rfl rfl
  | latch k held =>
    refine runs_of_move hs rfl (.press k held) ?_
    simp only [Console.move, Console.onMachine, Machine.press_eq]
    rfl
  | _ => exact ⟨hs.program_fits, hs.played⟩

theorem runs_instruction {s : Session w h} (hs : s.Runs) : s.instruction.state.Runs := by
  simp only [instruction, Act.state, Outcome.state_map]
  exact runs_of_move hs rfl .step rfl

theorem runs_refresh {s : Session w h} (hs : s.Runs) : s.refresh.1.Runs := by
  obtain ⟨_, hprogram, _⟩ := agrees_refresh s
  obtain ⟨noise, moves, hplayed⟩ := hs.played
  refine ⟨hprogram ▸ hs.program_fits, noise, moves, ?_⟩
  rw [machine, console_refresh, hprogram]
  exact hplayed

theorem runs_respond {s : Session w h} (hs : s.Runs) (a : Stimulus) : (s.respond a).state.Runs := by
  cases a with
  | event e => exact handle_keeps (P := Runs) (fun _ _ => runs_reacts) hs e
  | tick =>
    exact tick_keeps (P := Runs) (fun _ => runs_instruction)
      (fun _ hs => runs_of_move hs rfl .decay rfl) (fun _ => runs_refresh) hs

theorem runs_course {s : Session w h} (hs : s.Runs) (stimuli : List Stimulus) :
    (s.course stimuli).Runs :=
  course_keeps (fun _ a _ _ ht => runs_respond ht a) hs

theorem runs_of_start {c : Config} {program : List UInt8} {noise : Noise} {desk : Desk}
    {s : Session w h} {effects : List Effect}
    (hstart : start w h c program noise desk = .ok (s, effects)) : s.Runs := by
  obtain ⟨hfits, _, _, _, _, rfl⟩ := eq_ofMachine_of_start hstart
  exact runs_of_marked (v := c.variant) hfits rfl

/-- A reset gives the machine as it is built with the program that runs, marked to be shown. -/
theorem reset_of_runs {s : Session w h} (hs : s.Runs) :
    ∃ built t, Machine.create w h s.machine.variant s.program = .ok built ∧
      s.reset.outcome = .done t ∧ t.machine = built.marked ∧ t.program = s.program := by
  have hdone (built : Machine w h) (hreset : s.machine.reset s.program = .done built.marked) :
      ∃ t, s.reset.outcome = .done t ∧ t.machine = built.marked ∧ t.program = s.program :=
    ⟨s.renewed built.marked, outcome_reset hreset, rfl, rfl⟩
  have hreset := s.machine.reset_eq hs.program_fits
  rw [Machine.restarted_eq] at hreset
  obtain ⟨t, ht⟩ := hdone _ hreset
  exact ⟨_, t, Machine.create_eq s.machine.variant hs.program_fits, ht⟩

/-- A player who asks for another program gets all of it or nothing. Where it cannot be had, only
the tone is stopped and one box is shown; where it can, the program, the machine, the picture, the
mode and the title are all those of the new one, and no box is shown. The kept program is always the
one that the machine was loaded with, so a reset at any later time starts again what is played. -/
theorem changeProgram_all_or_nothing {s : Session w h} (hnul : s.desk.NextNulFree) :
    (s.desk.Withholds →
      s.changeProgram.outcome = .done s.refused ∧
      (∃ text title, Effect.requests s.changeProgram.effects =
        s.stops ++ [.pickProgram, .notify text title]) ∧
      (s.Runs → s.refused.Runs)) ∧
    (¬s.desk.Withholds →
      ∃ p program built, s.desk.Offers p program ∧
        Machine.create w h s.machine.variant program = .ok built ∧
        s.changeProgram.outcome = .done (s.replaced program built.marked) ∧
        Effect.requests s.changeProgram.effects =
          s.stops ++ [.pickProgram, .fill s.display.background, .present, .retitle p.stem] ∧
        (s.replaced program built.marked).Runs) ∧
    (∀ (c : Config) (program : List UInt8) (noise : Noise) (desk : Desk) (t : Session w h)
      (effects : List Effect), start w h c program noise desk = .ok (t, effects) → t.Runs) ∧
    ∀ t : Session w h, t.Runs → ∀ stimuli, (t.course stimuli).Runs ∧
      ∃ built u, Machine.create w h (t.course stimuli).machine.variant (t.course stimuli).program =
          .ok built ∧
        (t.course stimuli).reset.outcome = .done u ∧ u.machine = built.marked ∧
        u.program = (t.course stimuli).program := by
  refine ⟨?_, ?_, ?_, ?_⟩
  · intro hwithheld
    exact ⟨outcome_changeProgram_of_withholds hnul hwithheld,
      requests_changeProgram_of_withholds hnul hwithheld,
      fun hs => ⟨hs.program_fits, hs.played⟩⟩
  · intro hgiven
    obtain ⟨p, program, hoffered⟩ := Desk.exists_offers_of_not_withholds hgiven
    have houtcome := outcome_changeProgram_of_offers hnul hoffered
    rw [Machine.restarted_eq] at houtcome
    have hmarked (m : Machine w h) : (s.replaced program m.marked).machine.marked = m.marked := rfl
    exact ⟨p, program, _, hoffered, Machine.create_eq s.machine.variant hoffered.fits, houtcome,
      requests_changeProgram_of_offers hnul hoffered, runs_of_marked hoffered.fits (hmarked _)⟩
  · intro c program noise desk t effects hstart
    exact runs_of_start hstart
  · intro t ht stimuli
    have hcourse := runs_course ht stimuli
    exact ⟨hcourse, reset_of_runs hcourse⟩

/-- A program is opened, and then none is picked. -/
theorem changeProgram_all_or_nothing_once :
    ∃ (s : Session 64 32) (launched : List Effect),
      start 64 32 {} [0x00, 0xe0] (Noise.cycle []) oneProgram = .ok (s, launched) ∧
      s.desk.NextNulFree ∧ ¬s.desk.Withholds ∧
      (∃ p built, s.desk.Offers p [0x12, 0x00] ∧
        s.changeProgram.outcome = .done (s.replaced [0x12, 0x00] built)) ∧
      s.refused.desk.NextNulFree ∧ s.refused.desk.Withholds ∧
      s.refused.changeProgram.outcome = .done s.refused.refused := by
  obtain ⟨s, launched, hstart⟩ : ∃ (s : Session 64 32) (launched : List Effect),
      start 64 32 {} [0x00, 0xe0] (Noise.cycle []) oneProgram = .ok (s, launched) :=
    ⟨_, _, start_eq (by decide) rfl rfl (Noise.cycle []) oneProgram⟩
  obtain ⟨_, _, hdesk, _⟩ := playing_of_start hstart
  have hnul : s.desk.NextNulFree := hdesk ▸ nulFree_oneProgram.next
  have hgiven : ¬s.desk.Withholds := by
    intro hwithheld
    have hunopened := Desk.opened?_of_withholds hnul hwithheld
    rw [hdesk, opened?_oneProgram] at hunopened
    contradiction
  have hpicks : s.refused.desk.picks = [] := congrArg (·.picks.tail) hdesk
  have hnul' : s.refused.desk.NextNulFree := by
    intro text htext
    rw [hpicks] at htext
    contradiction
  have hwithheld : s.refused.desk.Withholds := by
    refine .cancelled ?_
    rw [Desk.pick?, hpicks]
    rfl
  obtain ⟨p, program, built, hoffered, _, houtcome, _⟩ :=
    (changeProgram_all_or_nothing hnul).2.1 hgiven
  have hread : s.desk.read p = .ok [0x12, 0x00] := by rw [hdesk]; rfl
  obtain rfl := Except.ok.inj (hoffered.read.symm.trans hread)
  exact ⟨s, launched, hstart, hnul, hgiven, ⟨p, built.marked, hoffered, houtcome⟩, hnul', hwithheld,
    ((changeProgram_all_or_nothing hnul').1 hwithheld).1⟩

end Session
end Chip8
