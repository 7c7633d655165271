import Chip8.Proofs.Conduct
import Chip8.Proofs.Options
import Chip8.Proofs.Silence

/-!
# From launch to exit

Without a program no device but the dialogs is touched. With one the mixer is opened, the devices
are started, and they are left as the last thing that is done, with every sound stopped before. The
exit status tells whether the player quit or a fault was met. A device that refuses what it is asked
for, such as a window of unknown size, is not considered.
-/

namespace Chip8

namespace Request

def isDevice : Request → Bool
  | .start | .quit | .openMixer _ => true
  | _ => false

def isDialog : Request → Bool
  | .pickProgram | .notify _ _ => true
  | _ => false

def isNotice : Request → Bool
  | .notify _ _ => true
  | _ => false

end Request

namespace Effect

def errors (effects : List Effect) : List String :=
  ((lines effects).filter (·.level = .error)).map Log.Line.message

@[simp] theorem errors_append (a b : List Effect) : errors (a ++ b) = errors a ++ errors b := by
  simp only [errors, lines_append, List.filter_append, List.map_append]

theorem isDevice_of_allOnTheWay {effects : List Effect} (heffects : AllOnTheWay effects)
    {q : Request} (hq : q ∈ requests effects) : q.isDevice = false := by
  obtain ⟨e, he, hsome⟩ := List.mem_filterMap.mp hq
  cases e with
  | log l => contradiction
  | request r =>
    obtain rfl := Option.some.inj hsome
    have hway := heffects _ he
    cases r <;> first | rfl | exact hway.elim

theorem refuses_of_allOnTheWay {effects : List Effect} (heffects : AllOnTheWay effects)
    {message : String} (hmessage : message ∈ errors effects) :
    ∃ why : Failure, why.Refuses ∧ message = why.message := by
  obtain ⟨l, hl, rfl⟩ := List.mem_map.mp hmessage
  obtain ⟨hline, hlevel⟩ := List.mem_filter.mp hl
  obtain ⟨e, he, hsome⟩ := List.mem_filterMap.mp hline
  cases e with
  | request r => contradiction
  | log l' =>
    obtain rfl := Option.some.inj hsome
    obtain ⟨level, text⟩ := l'
    obtain rfl : level = .error := by simpa using hlevel
    exact heffects _ he

end Effect

theorem Tone.errors_update (t : Tone) (active : Bool) : Effect.errors (t.update active).2 = [] := by
  unfold update
  split
  · rfl
  · split <;> rfl

/-- The program at a path, if it can be read and fits into memory. -/
def Desk.fitting? (d : Desk) (p : Path) : Option (List UInt8) :=
  match d.readProgram p with
  | .ok program => if program.length ≤ programCapacity then some program else none
  | .error _ => none

/-- Options in which every value is given that a session needs. The scale is not among them: without
it the window is asked for with an unknown size, and whatever is asked of a device is taken to be
done. -/
structure Config.Complete (c : Config) : Prop where
  speed_given : ∃ n, c.speed = some n
  frequency_given : ∃ n, c.frequency = some n
  sampleRate_given : ∃ n, c.sampleRate = some n
  foreground_given : ∃ n, c.foreground = some n
  background_given : ∃ n, c.background = some n

theorem Tone.ofConfig_of_given {c : Config} {sampleRate frequency : Int}
    (hrate : c.sampleRate = some sampleRate) (hfrequency : c.frequency = some frequency)
    (hne : frequency ≠ 0) :
    ∃ t, ofConfig c = .ok (t,
        [.request (.openMixer (some sampleRate)), .request (.addSound 1 t.samples)]) ∧
      t.sampleRate = sampleRate ∧ t.frequency = frequency ∧ t.volume = c.volume := by
  refine ⟨⟨sampleRate, frequency, c.volume, false, 1, hne⟩, ?_, rfl, rfl, rfl⟩
  simp only [ofConfig, hrate, hfrequency, make, dif_neg hne]

namespace Launch

def obtained? (c : Config) (d : Desk) : Option (List UInt8) :=
  match c.program with
  | some text => d.fitting? (.ofString text)
  | none => d.pick?.bind d.fitting?

/-- The desk of a launched session: the picker has given an answer if no program was named. -/
def deskBehind (c : Config) (d : Desk) : Desk := if c.program = none then d.afterPick else d

/-- A launch that came to a program, and whose session went through its last stage `o`. -/
structure Plays {w h : Nat} (picked : Bool) (o : Outcome (Session w h)) (r : Result) : Prop where
  /-- The mixer is opened once, then the devices are started once, and left once at the very end. -/
  bracketed : ∃ rate samples late,
    Effect.requests r.effects =
      (if picked then [.pickProgram] else []) ++
        [.openMixer rate, .addSound 1 samples, .start] ++ late ++ [.quit] ∧
      ∀ q ∈ late, q.isDevice = false
  silenced : ∃ ks, Effect.switches r.effects = Request.beeps ks
  /-- The player has quit, or a fault was met; it is the last error reported, and all the others
  tell of programs that were refused. -/
  concluded : ∃ refused,
    (∀ message ∈ refused, ∃ why : Failure, why.Refuses ∧ message = why.message) ∧
    ((∃ t, o = .done t ∧ t.mode = .quit ∧ r.ending = .exit 0 ∧
        Effect.errors r.effects = refused) ∨
      ∃ f t, o = .failed (.fault f) t ∧ r.ending = .exit 1 ∧
        Effect.errors r.effects = refused ++ [f.line])

end Launch

namespace Session

variable {w h : Nat} {o : Outcome (Session w h)} {ending : Ending} {effects : List Effect}

theorem isDevice_of_concludes (ho : Concludes o ending effects) {q : Request}
    (hq : q ∈ Effect.requests effects) : q.isDevice = false := by
  cases ho with
  | quit _ heffects => exact Effect.isDevice_of_allOnTheWay heffects hq
  | fault f heffects =>
    rw [Effect.requests_append] at hq
    rcases List.mem_append.mp hq with hq | hq
    · exact Effect.isDevice_of_allOnTheWay heffects hq
    · contradiction

theorem errors_of_concludes (ho : Concludes o ending effects) :
    ∃ refused, (∀ message ∈ refused, ∃ why : Failure, why.Refuses ∧ message = why.message) ∧
      ((∃ t, o = .done t ∧ t.mode = .quit ∧ ending = .exit 0 ∧ Effect.errors effects = refused) ∨
        ∃ f t, o = .failed (.fault f) t ∧ ending = .exit 1 ∧
          Effect.errors effects = refused ++ [f.line]) := by
  cases ho with
  | @quit t effects hmode heffects =>
    exact ⟨_, fun _ => Effect.refuses_of_allOnTheWay heffects, .inl ⟨t, rfl, hmode, rfl, rfl⟩⟩
  | @fault f t effects heffects =>
    refine ⟨_, fun _ => Effect.refuses_of_allOnTheWay heffects, .inr ⟨f, t, rfl, rfl, ?_⟩⟩
    exact Effect.errors_append effects _

end Session

namespace Launch

variable {w h : Nat} {c : Config} {program : List UInt8} {noise : Noise} {desk : Desk}

def opening (c : Config) (p : Path) (foreground background : Int) (w h : Nat) : List Effect :=
  (Display.make w h c (Color.rgb foreground) (Color.rgb background)).2 ++ Display.retitle p.stem

theorem allOnTheWay_opening (c : Config) (p : Path) (foreground background : Int) (w h : Nat) :
    Effect.AllOnTheWay (opening c p foreground background w h) := by
  intro e he
  simp only [opening, Display.make, Display.clear, Display.retitle, List.mem_append, List.mem_cons,
    List.not_mem_nil, or_false] at he
  rcases he with ((rfl | rfl | rfl) | rfl | rfl) | rfl <;> trivial

theorem plays_play (hw : 0 < w) (hh : 0 < h) (hcomplete : c.Complete)
    (hfrequency : ∀ n, c.frequency = some n → 0 < n) (hfits : program.length ≤ programCapacity)
    (hnul : desk.NulFree) (p : Path) (script : List (List Event)) {before : List Effect}
    {picked : Bool}
    (hbefore : Effect.requests before = if picked then [.pickProgram] else [])
    (herrors : Effect.errors before = []) :
    ∃ s launched o, Session.start w h c program noise desk = .ok (s, launched) ∧
      (s.stages script).getLast? = some o ∧
      Plays picked o
        ((play c p program (Machine.loaded w h c.variant program) noise desk script).after
          before) := by
  obtain ⟨rate, hrate⟩ := hcomplete.sampleRate_given
  obtain ⟨frequency, hfreq⟩ := hcomplete.frequency_given
  obtain ⟨foreground, hforeground⟩ := hcomplete.foreground_given
  obtain ⟨background, hbackground⟩ := hcomplete.background_given
  obtain ⟨speed, hspeed⟩ := hcomplete.speed_given
  have hpos := hfrequency frequency hfreq
  obtain ⟨tone, htone, -⟩ := Tone.ofConfig_of_given hrate hfreq (by omega)
  have hdisplay : Display.ofConfig w h c =
      .ok (Display.make w h c (Color.rgb foreground) (Color.rgb background)) := by
    simp only [Display.ofConfig, hforeground, hbackground]
  have hstart := Session.start_eq hfits htone hdisplay noise desk
  generalize hs : Session.ofMachine c (Machine.loaded w h c.variant program) noise desk program tone
    (Display.make w h c (Color.rgb foreground) (Color.rgb background)).1 = s at hstart
  have hplayable : s.Playable := by
    refine ⟨Session.ready_of_start hstart hnul, ?_, ⟨budgetAt speed, ?_⟩⟩
    · rw [← hs]
      exact Machine.inRange_loaded hw hh c.variant hfits false
    · rw [← hs]
      exact congrArg (Option.map budgetAt) hspeed
  obtain ⟨o, hlast, hconcludes⟩ := Session.concludes_loop hplayable script
  refine ⟨s, _, o, hstart, hlast, ?_⟩
  have hplay : play c p program (Machine.loaded w h c.variant program) noise desk script =
      ⟨[.request (.openMixer (some rate)), .request (.addSound 1 tone.samples),
          .request .start] ++ opening c p foreground background w h ++ (s.run script).effects ++
          [.request .quit],
        (s.loop script).ending⟩ := by
    simp only [play, htone, hdisplay, hs, opening, List.append_assoc, List.cons_append]
    rfl
  have hopening := allOnTheWay_opening c p foreground background w h
  constructor
  case bracketed =>
    refine ⟨some rate, tone.samples, Effect.requests (opening c p foreground background w h) ++
      Effect.requests (s.run script).effects, ?_, ?_⟩
    · simp only [Result.after, hplay, Effect.requests_append, hbefore, List.append_assoc]
      rfl
    · intro q hq
      rcases List.mem_append.mp hq with hq | hq
      · exact Effect.isDevice_of_allOnTheWay hopening hq
      · simp only [Session.run, Effect.requests_append] at hq
        rcases List.mem_append.mp hq with hq | hq
        · exact Session.isDevice_of_concludes hconcludes hq
        · exact Effect.isDevice_of_allOnTheWay (Tone.allOnTheWay_update _ false) hq
  case silenced =>
    have hquiet : Effect.switches before = [] := by
      simp only [Effect.switches, Effect.sounds, hbefore]
      split <;> rfl
    obtain ⟨ks, hks⟩ := Tone.switches_of_commanded (s.commanded_run script)
      (Session.silent_of_start hstart) (s.playing_run script)
    refine ⟨ks, ?_⟩
    simp only [Result.after, hplay, Effect.switches_append, hquiet, hks]
    exact List.append_nil _
  case concluded =>
    have hrun : Effect.errors (s.run script).effects = Effect.errors (s.loop script).effects := by
      simp only [Session.run, Session.setTone, Effect.errors_append, Tone.errors_update,
        List.append_nil]
    have hall : Effect.errors ((play c p program (Machine.loaded w h c.variant program) noise desk
        script).after before).effects = Effect.errors (s.loop script).effects := by
      simp only [Result.after, hplay, Effect.errors_append, herrors, hrun]
      exact List.append_nil _
    rw [hall]
    have hending : ((play c p program (Machine.loaded w h c.variant program) noise desk
        script).after before).ending = (s.loop script).ending := by
      rw [Result.after, hplay]
    rw [hending]
    exact Session.errors_of_concludes hconcludes

theorem Result.after_after (first second : List Effect) (r : Result) :
    (r.after second).after first = r.after (first ++ second) := by
  simp only [after, List.append_assoc]

theorem openProgram_of_unfit (c : Config) (noise : Noise) (d : Desk) {p : Path}
    (hread : d.readProgram p = (d.read p).mapError (.programUnreadable p.toString))
    (hunfit : d.fitting? p = none) (picked : Bool) (script : List (List Event)) :
    ∃ why, openProgram c picked p noise d script = (refuse picked why).after [loadingLine p] := by
  cases hfile : d.read p with
  | error reason =>
    rw [hfile] at hread
    have hrefused : d.readProgram p = .error (.programUnreadable p.toString reason) := hread
    exact ⟨.programUnreadable p.toString reason, by simp only [openProgram, hrefused]⟩
  | ok program =>
    rw [hfile] at hread
    have hgiven : d.readProgram p = .ok program := hread
    have hlarge : programCapacity < program.length := by
      refine Nat.lt_of_not_le fun hfits => ?_
      simp only [Desk.fitting?, hgiven, if_pos hfits] at hunfit
      contradiction
    exact ⟨.programTooLarge program.length,
      by simp only [openProgram, hgiven, Machine.create_of_lt c.variant hlarge]⟩

/-- Without a program a launch shows dialogs at most: the picker, and then one notice. -/
theorem launch_of_unobtained (hnul : desk.NulFree)
    (hname : ∀ text, c.program = some text → '\x00' ∉ text.toList)
    (hnone : obtained? c desk = none) (script : List (List Event)) :
    (launch c noise desk script).ending = .exit 1 ∧
      ∃ text title, Effect.requests (launch c noise desk script).effects =
        if c.program.isNone then [.pickProgram, .notify text title] else [] := by
  cases hprogram : c.program with
  | some text =>
    have hunfit : desk.fitting? (.ofString text) = none := by
      simpa only [obtained?, hprogram] using hnone
    obtain ⟨why, hopen⟩ := openProgram_of_unfit c noise desk
      (desk.readProgram_ofString (hname text hprogram)) hunfit false script
    simp only [launch, hprogram, hopen, Result.after, refuse]
    exact ⟨trivial, "", "", rfl⟩
  | none =>
    cases hpick : desk.pick? with
    | none =>
      simp only [launch, hprogram, hpick, Result.after]
      exact ⟨trivial, _, _, rfl⟩
    | some p =>
      have hunfit : desk.fitting? p = none := by
        simpa only [obtained?, hprogram, hpick, Option.bind_some] using hnone
      obtain ⟨why, hopen⟩ := openProgram_of_unfit c noise desk.afterPick
        (Desk.readProgram_of_pick hnul hpick) hunfit true script
      simp only [launch, hprogram, hpick, hopen, Result.after, refuse]
      exact ⟨trivial, _, _, rfl⟩

theorem fits_of_fitting? {p : Path} (hfit : desk.fitting? p = some program) :
    desk.readProgram p = .ok program ∧ program.length ≤ programCapacity := by
  unfold Desk.fitting? at hfit
  split at hfit
  · rename_i bytes hread
    split at hfit
    · rename_i hle
      obtain rfl := Option.some.inj hfit
      exact ⟨hread, hle⟩
    · contradiction
  · contradiction

theorem openProgram_of_fit {p : Path} (hfit : desk.fitting? p = some program) (picked : Bool)
    (script : List (List Event)) :
    openProgram c picked p noise desk script =
      (play c p program (Machine.loaded c.width.toNat c.height.toNat c.variant program) noise desk
        script).after [loadingLine p, .debug (Trace.loaded program), loadedLine c p] := by
  obtain ⟨hread, hfits⟩ := fits_of_fitting? hfit
  simp only [openProgram, hread, Machine.create_eq c.variant hfits]
  rfl

/-- With a program a launch plays it, behind the picker if it had to be picked. -/
theorem launch_of_obtained (hobtained : obtained? c desk = some program)
    (script : List (List Event)) :
    program.length ≤ programCapacity ∧
      ∃ p before, launch c noise desk script =
          (play c p program (Machine.loaded c.width.toNat c.height.toNat c.variant program) noise
            (deskBehind c desk) script).after before ∧
        (Effect.requests before = if c.program.isNone then [.pickProgram] else []) ∧
        Effect.errors before = [] := by
  cases hprogram : c.program with
  | some text =>
    have hfit : desk.fitting? (.ofString text) = some program := by
      simpa only [obtained?, hprogram] using hobtained
    have hdesk : deskBehind c desk = desk := if_neg (by simp [hprogram])
    refine ⟨(fits_of_fitting? hfit).2, .ofString text,
      [loadingLine (.ofString text), .debug (Trace.loaded program),
        loadedLine c (.ofString text)], ?_, rfl, rfl⟩
    rw [hdesk, launch, hprogram]
    exact openProgram_of_fit hfit false script
  | none =>
    obtain ⟨p, hpick, hfit⟩ : ∃ p, desk.pick? = some p ∧ desk.afterPick.fitting? p = some program := by
      simp only [obtained?, hprogram] at hobtained
      exact Option.bind_eq_some_iff.mp hobtained
    have hdesk : deskBehind c desk = desk.afterPick := if_pos hprogram
    refine ⟨(fits_of_fitting? hfit).2, p, [.request .pickProgram] ++
      [loadingLine p, .debug (Trace.loaded program), loadedLine c p], ?_, rfl, rfl⟩
    simp only [hdesk, launch, hprogram, hpick, openProgram_of_fit hfit true script,
      Result.after_after]

theorem openMixer_mem_play {m : Machine w h} (p : Path) (script : List (List Event)) :
    ∃ rate, .openMixer rate ∈ Effect.requests (play c p program m noise desk script).effects := by
  cases htone : Tone.ofConfig c with
  | error why => exact ⟨c.sampleRate, by simp only [play, htone]; exact List.mem_cons_self⟩
  | ok tone =>
    obtain ⟨tone, effects⟩ := tone
    obtain ⟨-, rfl⟩ := Tone.made_of_ofConfig htone
    refine ⟨some tone.sampleRate, ?_⟩
    simp only [play, htone]
    split <;> exact List.mem_cons_self

/-- Whether a program could be had tells what a launch does. Without one, and only then, it shows
dialogs at most and exits with 1, with one notice if it had shown the picker. With one, under
options that were all given a value, it is played to its end between the start and the quitting of
the devices. -/
theorem outcome_by_program {arguments : List String} {r : Result} {script : List (List Event)}
    (hlaunch : ofArguments arguments noise desk script = .ok (c, r)) (hnul : desk.NulFree)
    (hname : ∀ text, c.program = some text → '\x00' ∉ text.toList) :
    (obtained? c desk = none ↔
      r.ending = .exit 1 ∧ ∀ q ∈ Effect.requests r.effects, q.isDialog = true) ∧
    (obtained? c desk = none →
      (Effect.requests r.effects).countP Request.isNotice = if c.program.isNone then 1 else 0) ∧
    ∀ program, obtained? c desk = some program → c.Complete →
      ∃ s launched o,
        Session.start c.width.toNat c.height.toNat c program noise (deskBehind c desk) =
          .ok (s, launched) ∧
        (s.stages script).getLast? = some o ∧ Plays c.program.isNone o r := by
  obtain ⟨c', hparse, heq⟩ := CommandLine.exists_of_map_eq_ok hlaunch
  obtain ⟨rfl, rfl⟩ := Prod.mk.inj heq
  have hsound := CommandLine.sound_of_parse hparse
  refine ⟨⟨fun hnone => ?dialogs, fun hdialogs => ?none⟩, fun hnone => ?notice, ?played⟩
  case dialogs =>
    obtain ⟨hending, text, title, hrequests⟩ := launch_of_unobtained hnul hname hnone script
    refine ⟨hending, ?_⟩
    rw [hrequests]
    split <;> simp [Request.isDialog]
  case none =>
    refine Option.eq_none_iff_forall_ne_some.mpr fun program hobtained => ?_
    obtain ⟨-, p, before, hplay, -⟩ := launch_of_obtained hobtained script
    obtain ⟨rate, hrate⟩ := openMixer_mem_play p script
    have hmem : .openMixer rate ∈ Effect.requests (launch c noise desk script).effects := by
      rw [hplay, Result.after, Effect.requests_append]
      exact List.mem_append_right _ hrate
    exact absurd (hdialogs.2 _ hmem) (by simp [Request.isDialog])
  case notice =>
    obtain ⟨-, text, title, hrequests⟩ := launch_of_unobtained hnul hname hnone script
    rw [hrequests]
    split <;> rfl
  case played =>
    intro program hobtained hcomplete
    obtain ⟨hfits, p, before, hplay, hbefore, herrors⟩ := launch_of_obtained hobtained script
    have hdesk : (deskBehind c desk).NulFree := by
      unfold deskBehind
      split
      · exact Desk.afterPick_eq desk ▸ Desk.nulFree_skip hnul 1
      · exact hnul
    rw [hplay]
    refine plays_play ?_ ?_ hcomplete hsound.frequency_pos hfits hdesk p script hbefore herrors
    · simp [hsound.width_eq]
    · simp [hsound.height_eq]

/-- A program that does nothing but jump to itself is played until the player quits: a key goes down
in front of the only tick. -/
theorem outcome_by_program_named :
    ∃ s launched t u r,
      ofArguments ["game.ch8"] (Noise.cycle []) Session.oneProgram [[.key true 120 0]] =
        .ok ({ program := some "game.ch8" }, r) ∧
      Session.start 64 32 { program := some "game.ch8" } [0x12, 0x00] (Noise.cycle [])
        Session.oneProgram = .ok (s, launched) ∧
      s.stages [[.key true 120 0]] = [.done t, .done u, .done { u with mode := .quit }] ∧
      t.machine.keys.latched 0 = true ∧ Plays false (.done { u with mode := .quit }) r ∧
      r.ending = .exit 0 := by
  let c : Config := { program := some "game.ch8" }
  have hparse : ofArguments ["game.ch8"] (Noise.cycle []) Session.oneProgram [[.key true 120 0]] =
      .ok (c, launch c (Noise.cycle []) Session.oneProgram [[.key true 120 0]]) := by
    simp only [ofArguments]
    rfl
  have hobtained : obtained? c Session.oneProgram = some [0x12, 0x00] := by
    simp only [c, obtained?, Desk.fitting?]
    rw [Desk.readProgram_ofString _ (by decide)]
    rfl
  have hcomplete : c.Complete := ⟨⟨_, rfl⟩, ⟨_, rfl⟩, ⟨_, rfl⟩, ⟨_, rfl⟩, ⟨_, rfl⟩⟩
  obtain ⟨s, launched, o, hstart, hlast, hplays⟩ :=
    (outcome_by_program hparse Session.nulFree_oneProgram (fun text htext => by
      obtain rfl := Option.some.inj htext
      decide)).2.2 _ hobtained hcomplete
  have hp : ([0x12, 0x00] : List UInt8).length ≤ programCapacity := by decide
  obtain ⟨hmachine, hmode, hbudget⟩ : s.machine = Machine.loaded 64 32 .chip8 [0x12, 0x00] ∧
      s.mode = .running ∧ s.budget = some (budgetAt 700) := by
    obtain ⟨rfl, -⟩ := Prod.mk.inj (Except.ok.inj (hstart.symm.trans
      (Session.start_eq (c := c) hp rfl rfl (Noise.cycle []) _)))
    exact ⟨rfl, rfl, rfl⟩
  let t := s.withMachine (s.machine.latch 0 true)
  have hpressed : (s.handleAll [.key true 120 0]).outcome = .done t := rfl
  have hrange : t.machine.InRange := Machine.inRange_latch
    (hmachine ▸ Machine.inRange_loaded (by decide) (by decide) .chip8 hp false) 0 true
  have hcounter : t.machine.counter = (512 : Fin 4096) := congrArg Machine.counter hmachine
  have hcurrent : t.machine.current = .jump 512 :=
    (congrArg Machine.current hmachine).trans (Machine.current_loaded_jump_self .chip8 hp)
  have hticked := Session.tick_of_jump_self hrange hmode hbudget
    (by rw [hcounter]; decide) hcurrent hcounter
  let u := t.timers.1.refresh.1
  have hstages :
      s.stages [[.key true 120 0]] = [.done t, .done u, .done { u with mode := .quit }] := by
    have hruns : t.mode ≠ .quit := by
      show s.mode ≠ .quit
      rw [hmode]
      decide
    simp only [Session.stages, hpressed, if_neg hruns, hticked]
    rfl
  rw [hstages] at hlast
  obtain rfl : .done { u with mode := .quit } = o := Option.some.inj hlast
  refine ⟨s, launched, t, u, _, hparse, hstart, hstages, ?_, hplays, ?_⟩
  · exact (Keypad.latched_latch _ 0 true 0).trans (if_pos rfl)
  · obtain ⟨refused, -, ⟨-, -, -, hending, -⟩ | ⟨f, v, hfailed, -⟩⟩ := hplays.concluded
    · exact hending
    · contradiction

/-- Options may be left blank that a session cannot do without: a launch whose window has no
colour fails, even where the player quits at once. -/
theorem failed_of_blank_foreground :
    (ofArguments ["game.ch8", "--foreground=--", "--sample-rate", "12", "--tone", "3"]
        (Noise.cycle []) ⟨fun _ => .ok [0x12, 0x00], []⟩ []).map (·.2.ending) =
      .ok (.failed (.blank .color)) := by
  have hparse : CommandLine.parse
      ["game.ch8", "--foreground=--", "--sample-rate", "12", "--tone", "3"] =
      .ok
        { program := some "game.ch8"
          foreground := none
          sampleRate := some 12
          frequency := some 3 } := rfl
  simp only [ofArguments, hparse, Except.map, launch, openProgram]
  rw [Desk.readProgram_ofString _ (by decide)]
  rfl

end Launch
end Chip8
