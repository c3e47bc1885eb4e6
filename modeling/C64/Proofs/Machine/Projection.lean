import C64.Proofs.Board.Screen
import C64.Proofs.Machine.Configured
import C64.Vic.Colour

/-!
# The screen a sink keeps

A sink that keeps the whole screen asks for every line when it is made and when its colours change.
The next run of a frame takes the request up, at whatever line the raster stands. The lines it has
passed are then to be rendered as a whole, but not in the frame that goes on, and that frame is
presented without them. They come with the next one: how far the sink has come is its `Coverage`,
and from the top of a frame on that it was asked for, or of any later one, the copy is complete
(`projected_shows`).

Steps by hand that complete a frame leave it to the next run, which presents it at once. A sink that
is made behind such a run, in mid-frame, gets a copy that lacks the first line
(`passed_line_missing`).
-/

namespace C64

open Raster

namespace Machine

variable {m m' : Machine} {s s' : FullFrame} {whole : Prop} {n : Nat}

/-- No visible line of the frame that goes on was rendered yet, or a reset will start one. -/
def AtTop (m : Machine) : Prop :=
  m.resetRequested = true ∨ m.board.devices.screen.Ahead 0

instance (m : Machine) : Decidable m.AtTop :=
  inferInstanceAs (Decidable (_ ∨ _ ∧ _))

/-! ## What a run keeps -/

theorem Sound.ready_serves (h : m.Sound)
    (serves : m.board.devices.screen.Serves (whole ∧ m.resetRequested = false) s)
    (hrun : m.ready = .ok m') : m'.Sound ∧ m'.board.devices.screen.Serves whole s := by
  unfold Machine.ready at hrun
  split at hrun
  · obtain ⟨board, hreset, hcpu⟩ := bind_eq_ok.mp hrun
    have sound : Sound { m.applyInput with board, resetRequested := false } :=
      ⟨h.applyInput.board.reset hreset, h.applyInput.cpu⟩
    have serves := Board.reset_serves hreset whole s
    have reset := sound.resetCpu hcpu
    obtain ⟨⟨cpu, board'⟩, hran, hret⟩ := bind_eq_ok.mp hcpu
    cases hret
    exact ⟨reset, sound.board.cpu_reset_screen (Board.Screen.serves_stable whole s) serves hran⟩
  · next going =>
    cases hrun
    refine ⟨h.applyInput, ?_⟩
    obtain ⟨_, _, _, heq⟩ := m.applyInput_eq
    rw [heq]
    exact serves.mono fun frame => ⟨frame, Bool.eq_false_iff.mpr going⟩

/-- A step goes on serving a sink, with a frame started anew if it resets the machine. -/
theorem Sound.step_serves (h : m.Sound)
    (serves : m.board.devices.screen.Serves (whole ∧ m.resetRequested = false) s)
    (hrun : m.step = .ok (n, m')) : m'.board.devices.screen.Serves whole s := by
  rw [step_eq] at hrun
  obtain ⟨m₁, hready, hrun⟩ := bind_eq_ok.mp hrun
  obtain ⟨⟨n', cpu, board⟩, hstep, hret⟩ := bind_eq_ok.mp hrun
  cases hret
  obtain ⟨sound, serves⟩ := h.ready_serves serves hready
  exact sound.board.cpu_step_screen (Board.Screen.serves_stable whole s) serves hstep

/-- Behind the steps of a whole frame, the sink tracks every line. -/
theorem Sound.stepUntilFrame_serves (h : m.Sound)
    (serves : m.board.devices.screen.Serves (whole ∧ m.resetRequested = false) s) {budget : Nat}
    {complete : Bool} (hrun : m.stepUntilFrame budget = .ok (complete, m')) :
    m'.board.devices.screen.Serves (whole ∧ m'.resetRequested = false) s ∧
      (complete = true → whole → ∀ (y : Nat) (l : Vic.Line),
        m'.board.devices.vic.cache.lines[y]? = some l → s.Tracks y l) := by
  rcases h.stepUntilFrame_leads (fun sound serves hstep => sound.step_serves serves hstep)
    (fun serves _ => serves.mono And.left) serves hrun with
    ⟨rfl, m₁, serves, rfl⟩ | ⟨rfl, m₁, serves, up, rfl⟩
  · exact ⟨serves, fun complete => absurd complete (by simp)⟩
  · exact ⟨serves.takeFrame.mono And.left, fun _ frame _ _ hl => serves.tracks frame up hl⟩

/-- The step that completes a frame ends in the first line of the next. -/
theorem Sound.step_firstLine (h : m.Sound) (fresh : m.Fresh) (hrun : m.step = .ok (n, m'))
    (up : m'.board.devices.frameComplete = true) : m'.board.devices.vic.rasterLine = 0 := by
  cases reset : m.resetRequested with
  | true =>
    obtain ⟨-, -, down⟩ := h.step_resets reset hrun
    exact absurd (up.symm.trans down) (by simp)
  | false =>
    have down : m.board.devices.frameComplete = false := by simpa [Fresh, reset] using fresh
    rcases (h.step_rolled reset hrun).2.2.frame_cases with ⟨-, same⟩ | ⟨-, -, line⟩
    · exact absurd (up.symm.trans (same.trans down)) (by simp)
    · exact line

theorem Sound.stepUntilFrame_atTop (h : m.Sound) (fresh : m.Fresh) {budget : Nat}
    (hrun : m.stepUntilFrame budget = .ok (true, m')) : m'.AtTop := by
  rcases h.stepUntilFrame_leads (fun sound fresh hstep => sound.step_firstLine fresh hstep)
    (fun _ down => .inl down) fresh hrun with ⟨stopped, -⟩ | ⟨-, m₁, line, up, rfl⟩
  · exact absurd stopped (by simp)
  · refine .inr ⟨rfl, ?_⟩
    show m₁.board.devices.vic.rasterLine ≤ _
    rw [line up]
    exact Nat.zero_le _

/-- The run of a frame takes the sink's request up, steps, and presents what the steps completed. -/
theorem runFrame_fullFrame {report : FrameReport} (hrun : m.runFrame s = .ok (report, m', s')) :
    ∃ m₁ budget complete, (m.asked s.refresh).stepUntilFrame budget = .ok (complete, m₁) ∧
      (complete = false ∧ report.status = none ∧ m' = m₁ ∧ s' = { s with refresh := false } ∨
        complete = true ∧ report.status = some .presented ∧ m' = m₁.deliver ∧
          FullFrame.present { s with refresh := false }
            ⟨m₁.board.devices.vic.frame, m₁.board.devices.vic.cache⟩ = .ok s') := by
  obtain ⟨m₁, budget, complete, hframe, -, stopped | ⟨rfl, status, hstatus, hpresent, rfl⟩⟩ :=
    runFrame_outcome hrun
  · exact ⟨m₁, budget, complete, hframe, .inl stopped⟩
  · obtain ⟨shown, hshown, hret⟩ := bind_eq_ok.mp hpresent
    obtain ⟨rfl, rfl⟩ := Prod.mk.inj (Except.ok.inj hret)
    exact ⟨m₁, budget, true, hframe, .inr ⟨rfl, hstatus, if_pos rfl, hshown⟩⟩

/-! ## How far a sink has come -/

/-- What became of a sink's request for every line. -/
inductive Coverage where
  /-- No run has taken it up. -/
  | asked
  /-- A run has, but no frame was run from its top since. -/
  | begun
  /-- A frame was run from its top since. -/
  | whole
deriving DecidableEq

namespace Coverage

/-- A run of a frame takes the request up. -/
def take : Coverage → Coverage
  | asked => begun
  | c => c

/-- From the top of a frame the machine comes by every line. -/
def runFrom (c : Coverage) (m : Machine) : Coverage := if c = .begun ∧ m.AtTop then .whole else c

theorem take_ne_asked (c : Coverage) : c.take ≠ asked := by
  cases c <;> simp [take]

theorem runFrom_eq_asked {c : Coverage} : c.runFrom m = asked ↔ c = asked := by
  unfold runFrom
  split
  · next top => simp [top.1]
  · exact Iff.rfl

end Coverage

/-- A machine and a sink that is the only one it presents frames to. The sink may be made beside any
machine, and be given other colours between any two operations. -/
inductive Projected : Coverage → Machine → FullFrame → Prop
  | new {m : Machine} (palette : Palette) : m.Reachable → Projected .asked m (.new palette)
  | setPalette {c : Coverage} {m : Machine} {s : FullFrame} (palette : Palette) :
      Projected c m s → Projected .asked m (s.setPalette palette)
  | step {c : Coverage} {m m' : Machine} {s : FullFrame} {n : Nat} :
      Projected c m s → m.step = .ok (n, m') → Projected (c.runFrom m) m' s
  | runFrame {c : Coverage} {m m' : Machine} {s s' : FullFrame} {report : FrameReport} :
      Projected c m s → m.runFrame s = .ok (report, m', s') →
      Projected (c.take.runFrom m) m' s'
  | requestStop {c : Coverage} {m : Machine} {s : FullFrame} :
      Projected c m s → Projected c m.requestStop s
  | requestReset {c : Coverage} {m : Machine} {s : FullFrame} :
      Projected c m s → Projected c m.requestReset s
  | send {c : Coverage} {m : Machine} {s : FullFrame} (e : InputEvent) :
      Projected c m s → Projected c (m.send e) s
  | load {c : Coverage} {m : Machine} {s : FullFrame} (address : UInt16) (bytes : List UInt8) :
      Projected c m s → Projected c (m.load address bytes) s

structure Projects (c : Coverage) (m : Machine) (s : FullFrame) : Prop where
  sound : m.Sound
  fits : s.Fits Vic.width m.config.standard.visibleLines
  asks : c = .asked → s.refresh = true
  serves : c ≠ .asked →
    m.board.devices.screen.Serves (c = .whole ∧ m.resetRequested = false) s

variable {c : Coverage}

theorem Sound.height (h : m.Sound) :
    m.board.devices.vic.cache.height = m.config.standard.visibleLines :=
  h.board.sound.devices.vic.cache.size.trans (congrArg _ h.board.made.vic)

/-- At the top of a frame, what is to be rendered is still to come. -/
theorem serves_runFrom
    (h : m.board.devices.screen.Serves (c = .whole ∧ m.resetRequested = false) s) :
    m.board.devices.screen.Serves (c.runFrom m = .whole ∧ m.resetRequested = false) s := by
  unfold Coverage.runFrom
  split
  · next top =>
    rcases top.2 with reset | ahead
    · exact h.mono fun going => absurd (reset.symm.trans going.2) (by simp)
    · exact h.ofTop ahead
  · exact h

/-- A run of a frame serves the sink, whose request it takes up. -/
theorem Projects.asked (h : Projects c m s) :
    (m.asked s.refresh).board.devices.screen.Serves
      (c.take.runFrom m = .whole ∧ m.resetRequested = false) s := by
  have served : m.board.devices.screen.Serves (c.take = .whole ∧ m.resetRequested = false) s ∨
      c = .asked := by
    cases c with
    | asked => exact .inr rfl
    | begun => exact .inl (h.serves (by simp))
    | whole => exact .inl (h.serves (by simp))
  rcases served with serves | rfl
  · have serves := serves_runFrom serves
    unfold Machine.asked
    split
    · exact serves.invalidate
    · exact serves
  · have serves : m.refresh.board.devices.screen.Serves False s :=
      Board.Screen.serves_invalidate s m.board.devices.screen
    have begun : m.refresh.board.devices.screen.Serves
        (Coverage.begun = .whole ∧ m.refresh.resetRequested = false) s :=
      serves.mono fun never => absurd never.1 (by simp)
    rw [Machine.asked, if_pos (h.asks rfl)]
    exact serves_runFrom begun

/-- Behind a run of a frame: the measures and the colours of the sink, and what it shows. -/
structure Presented (whole : Prop) (m : Machine) (s s' : FullFrame) : Prop where
  palette : s'.palette = s.palette
  width : s'.width = Vic.width
  height : s'.height = m.board.devices.vic.cache.height
  shows : ∀ (y : Nat) (l : Vic.Line), m.board.devices.vic.cache.lines[y]? = some l →
    whole ∨ l.neverRendered = false → s'.Shows y l

theorem Projects.runFrame (h : Projects c m s) {report : FrameReport}
    (hrun : m.runFrame s = .ok (report, m', s')) :
    Projects (c.take.runFrom m) m' s' ∧
      (report.status = some .presented →
        Presented (c.take.runFrom m = .whole) m' s s' ∧ (m.Fresh → m'.AtTop)) := by
  have sound' := h.sound.runFrame hrun
  have config := (h.sound.runFrame_setUp hrun).config
  have taken : c.take.runFrom m ≠ .asked :=
    fun asked => c.take_ne_asked (Coverage.runFrom_eq_asked.mp asked)
  obtain ⟨m₁, budget, complete, hframe, outcome⟩ := runFrame_fullFrame hrun
  have reset : (m.asked s.refresh).resetRequested = m.resetRequested := by
    unfold Machine.asked
    split <;> rfl
  have start := h.asked
  rw [← reset] at start
  have sound₁ := h.sound.asked s.refresh
  obtain ⟨serves, tracks⟩ := sound₁.stepUntilFrame_serves start hframe
  rcases outcome with ⟨-, none, rfl, rfl⟩ | ⟨rfl, -, rfl, hpresent⟩
  -- A run that was stopped presents nothing, and what it rendered is damaged until the next.
  · refine ⟨⟨sound', ?_, fun asked => absurd asked taken, fun _ => serves⟩, ?_⟩
    · rw [config]
      exact ⟨h.fits.size, h.fits.measures⟩
    · rw [none]
      exact fun some => absurd some (by simp)
  · have height : m₁.board.devices.vic.cache.height = m.config.standard.visibleLines := by
      rw [← config, ← sound'.height]
      exact (Array.size_map ..).symm
    have fits : FullFrame.Fits Vic.width m₁.board.devices.vic.cache.height
        { s with refresh := false } := by
      rw [height]
      exact ⟨h.fits.size, h.fits.measures⟩
    obtain ⟨fits', palette, width, height', -⟩ := FullFrame.present_ok fits hpresent
    have shows : ∀ (y : Nat) (l : Vic.Line), m₁.board.devices.vic.cache.lines[y]? = some l →
        s.Tracks y l → s'.Shows y l :=
      fun _ _ hl tracked => FullFrame.Tracks.present fits hpresent hl tracked
    refine ⟨⟨sound', ?_, fun asked => absurd asked taken, fun _ => serves.present shows⟩,
      fun _ => ⟨⟨palette, width, height'.trans (Array.size_map ..).symm, ?_⟩, fun fresh => ?_⟩⟩
    · rw [config, ← height]
      exact fits'
    · intro y l hl rendered
      obtain ⟨old, hold, rfl⟩ := Option.map_eq_some_iff.mp (Array.getElem?_map ▸ hl)
      refine shows y old hold ?_
      rcases rendered with frame | rendered
      · exact tracks rfl frame y old hold
      -- Short of a whole frame, only what waits to be rendered is not tracked.
      · rcases serves y old hold with tracked | ⟨never, -⟩
        · exact tracked
        · exact absurd (never.symm.trans rendered) (by simp)
    · have begins := (asked_counts s.refresh m).2.2
      exact (sound₁.stepUntilFrame_atTop (begins.mpr fresh) hframe : m₁.AtTop)

theorem Projected.projects (h : Projected c m s) : Projects c m s := by
  induction h with
  | new palette reachable =>
    exact ⟨reachable.sound, .new palette, fun _ => rfl, fun taken => absurd rfl taken⟩
  | setPalette palette _ ih =>
    exact ⟨ih.sound, ⟨ih.fits.size, ih.fits.measures⟩, fun _ => rfl, fun taken => absurd rfl taken⟩
  | step _ hrun ih =>
    refine ⟨ih.sound.step hrun, ?_, fun asked => ih.asks (Coverage.runFrom_eq_asked.mp asked), ?_⟩
    · rw [(ih.sound.step_setUp hrun).config]
      exact ih.fits
    · intro taken
      have serves := ih.serves fun asked => taken (Coverage.runFrom_eq_asked.mpr asked)
      exact (ih.sound.step_serves (serves_runFrom serves) hrun).mono And.left
  | runFrame _ hrun ih => exact (ih.runFrame hrun).1
  | requestStop _ ih => exact ⟨⟨ih.sound.board, ih.sound.cpu⟩, ih.fits, ih.asks, ih.serves⟩
  | requestReset _ ih =>
    exact ⟨⟨ih.sound.board, ih.sound.cpu⟩, ih.fits, ih.asks, fun taken =>
      (ih.serves taken).mono fun going => absurd going.2 (by simp [Machine.requestReset])⟩
  | send e _ ih => exact ⟨⟨ih.sound.board, ih.sound.cpu⟩, ih.fits, ih.asks, ih.serves⟩
  | load address bytes _ ih =>
    exact ⟨ih.sound.withDevices ih.sound.board.sound.devices.vic rfl rfl rfl rfl rfl, ih.fits,
      ih.asks, ih.serves⟩

/-- Every frame that is presented leaves the sink with its colours, in the measures of the cache. It
shows every line that was rendered since its request was taken up, and where a frame was run from
the top since, every line there is. A run that completes its frame ends at the top of the next. -/
theorem projected_shows (h : Projected c m s) {report : FrameReport}
    (hrun : m.runFrame s = .ok (report, m', s')) (presented : report.status = some .presented) :
    Presented (c.take.runFrom m = .whole) m' s s' ∧ (m.Fresh → m'.AtTop) :=
  (h.projects.runFrame hrun).2 presented

theorem projected_shows_first : ∃ m report m' s', new {} {} = .ok m ∧
    Projected .asked m (.new Vic.palette) ∧
    m.runFrame (.new Vic.palette : FullFrame) = .ok (report, m', s') ∧
    report.status = some .presented ∧ Coverage.asked.take.runFrom m = .whole ∧
    Presented (Coverage.asked.take.runFrom m = .whole) m' (.new Vic.palette) s' ∧ m.Fresh ∧
    m'.AtTop := by
  have slow : ∀ rtc ∈ ({} : Config).rtc, rtc.cyclesPerSecond ≤ Cycle.headroom := by simp
  obtain ⟨m, hnew, onTime, -, age, down⟩ := new_onTime {} slow
  obtain ⟨⟨report, m', s'⟩, hrun, -, complete⟩ :=
    (Framed.new hnew).atFrame slow |>.runFrame slow takes_fullFrame (.new Vic.palette)
  have projected : Projected .asked m (.new Vic.palette) := .new _ (.new hnew)
  have presented : report.status = some .presented := by
    obtain ⟨-, -, -, -, ⟨-, none, -⟩ | ⟨-, presented, -⟩⟩ := runFrame_fullFrame hrun
    · exact absurd (none ▸ complete) (by simp)
    · exact presented
  obtain ⟨shows, top⟩ := projected_shows projected hrun presented
  have line : m.board.devices.vic.rasterLine = 0 := by
    rw [onTime.rasterLine, age]
    rfl
  have start : m.AtTop := .inr ⟨down, by
    show m.board.devices.vic.rasterLine ≤ _
    rw [line]
    exact Nat.zero_le _⟩
  exact ⟨m, report, m', s', hnew, projected, hrun, presented, if_pos ⟨rfl, start⟩, shows, .inl down,
    top (.inl down)⟩

/-! ### A sink made in mid-frame -/

/-- In the frame that goes on, which no reset is to end, the raster has passed a line that has no
damage. -/
structure Past (y : Nat) (m : Machine) : Prop where
  noReset : m.resetRequested = false
  down : m.board.devices.frameComplete = false
  passed : m.board.devices.vic.standard.firstVisibleLine + y < m.board.devices.vic.rasterLine
  undamaged : m.board.devices.screen.Undamaged y

/-- A step does not come back to the line, at most to the top of the next frame. -/
theorem Sound.step_past (h : m.Sound) {y : Nat} (past : m.Past y)
    (hrun : m.step = .ok (n, m')) :
    m'.Past y ∨
      m'.board.devices.frameComplete = true ∧ m'.board.devices.screen.Undamaged y := by
  obtain ⟨-, noReset, rolled⟩ := h.step_rolled past.noReset hrun
  have leaves : m'.board.devices.screen.Leaves y m.frames := by
    have ready : m.ready = .ok m.applyInput := by simp [Machine.ready, past.noReset]
    rw [step_eq, ready, ok_bind] at hrun
    obtain ⟨⟨n', cpu, board⟩, hstep, hret⟩ := bind_eq_ok.mp hrun
    cases hret
    refine h.applyInput.board.cpu_step_screen (Board.Screen.leaves_stable y m.frames) ?_ hstep
    obtain ⟨_, _, _, heq⟩ := m.applyInput_eq
    rw [heq]
    exact .inl ⟨rfl, past.passed, past.undamaged⟩
  -- One instruction ends one frame at most, so the raster does not come by the line.
  rcases rolled.frame_cases with ⟨frame, same⟩ | ⟨frame, up, line⟩
  · have frame : m'.frames = m.frames := frame
    rcases leaves with ⟨-, passed, undamaged⟩ | ⟨later, -⟩ | beyond
    · exact .inl ⟨noReset, same.trans past.down, passed, undamaged⟩
    · have later : m'.frames = m.frames + 1 := later
      omega
    · have beyond : m.frames + 2 ≤ m'.frames := beyond
      omega
  · have frame : m'.frames = m.frames + 1 := frame
    rcases leaves with ⟨here, -⟩ | ⟨-, undamaged⟩ | beyond
    · have here : m'.frames = m.frames := here
      omega
    · exact .inr ⟨up, undamaged (Nat.le_trans (Nat.le_of_eq line) (Nat.zero_le _))⟩
    · have beyond : m.frames + 2 ≤ m'.frames := beyond
      omega

theorem Sound.stepUntilFrame_past (h : m.Sound) {y : Nat} (past : m.Past y) {budget : Nat}
    (hrun : m.stepUntilFrame budget = .ok (true, m')) :
    m'.board.devices.screen.Undamaged y := by
  rcases h.stepUntilFrame_leads (fun sound past hstep => sound.step_past past hstep)
    (fun behind down => behind.resolve_right fun ⟨up, _⟩ => by simp [up] at down) past hrun with
    ⟨stopped, -⟩ | ⟨-, m₁, past | ⟨-, undamaged⟩, up, rfl⟩
  · exact absurd stopped (by simp)
  · exact absurd (up.symm.trans past.down) (by simp)
  · exact undamaged

/-- Steps by hand come closer to the end of the frame, as close as is asked for. -/
theorem Going.steps_near {t : Nat} (h : m.Going t) (limit : Nat) (far : Cpu.mostCycles < t)
    (room : 2 * Cpu.mostCycles ≤ limit) (noReset : m.resetRequested = false)
    (noStop : m.stopRequested = false) (up : m.board.devices.frameComplete = true)
    (done : List Nat) :
    ∃ k cycles m' t', steps.go done k m = .ok (cycles, m') ∧ m'.Going t' ∧ Cpu.mostCycles < t' ∧
      t' ≤ limit ∧ m'.resetRequested = false ∧ m'.stopRequested = false ∧
      m'.board.devices.frameComplete = true := by
  induction t using Nat.strongRecOn generalizing m done with
  | ind t ih =>
    by_cases near : t ≤ limit
    · exact ⟨0, done.reverse, m, t, rfl, h, far, near, noReset, noStop, up⟩
    · obtain ⟨⟨n, m₁⟩, hstep, step⟩ := h.step noReset
      have one_le := step.one_le
      have le_most := step.le_most
      rcases step.going with ⟨-, going, -, same⟩ | ⟨past, -⟩
      · obtain ⟨k, cycles, m', t', hgo, rest⟩ := ih (t - n) (by omega) going (by omega)
          (step.resetRequested.trans noReset) (step.stopRequested.trans noStop) (same.trans up)
          (n :: done)
        refine ⟨k + 1, cycles, m', t', ?_, rest⟩
        unfold steps.go
        rw [hstep]
        exact hgo
      · omega

/-- So near to its end, the frame is behind a line. -/
theorem Going.line_lt {t line : Nat} (h : m.Going t)
    (near : t ≤ (m.board.devices.vic.standard.linesPerFrame - 1 - line) *
      m.board.devices.vic.standard.cyclesPerLine) : line < m.board.devices.vic.rasterLine := by
  obtain ⟨due, -, ends⟩ := h.ends
  have left := ends.left
  have ahead := ends.ahead
  have fewer := Nat.lt_of_mul_lt_mul_right (a := m.board.devices.vic.standard.cyclesPerLine)
    (b := m.board.devices.vic.standard.linesPerFrame - 1 - (m.board.devices.beam due).line)
    (c := m.board.devices.vic.standard.linesPerFrame - 1 - line) (by omega)
  have here : (m.board.devices.beam due).line = m.board.devices.vic.rasterLine := rfl
  omega

/-- A machine whose frame was presented in the middle of the next, with the raster behind the first
visible line. Nothing of the screen is damaged there. -/
theorem presented_midframe : ∃ m k cycles m₁ k' cycles' m₂ report m₃, new {} {} = .ok m ∧
    steps k m = .ok (cycles, m₁) ∧ steps k' m₁ = .ok (cycles', m₂) ∧
    m₂.runFrame ({} : NullSink) = .ok (report, m₃, {}) ∧ m₃.Reachable ∧ Driven {} {} m₃ ∧
    m₃.Past 0 := by
  have slow : ∀ rtc ∈ ({} : Config).rtc, rtc.cyclesPerSecond ≤ Cycle.headroom := by simp
  obtain ⟨m, hnew, onTime, -⟩ := new_onTime {} slow
  obtain ⟨t, going, -⟩ := onTime.going
  obtain ⟨k, cycles, m₁, t₁, hsteps, going₁, far₁, up₁, noReset₁, noStop₁⟩ :=
    going.steps_complete onTime.resetRequested onTime.stopRequested []
  -- With at most 304 lines of 63 cycles to go, the raster has passed line 6, the first visible one.
  obtain ⟨k', cycles', m₂, t₂, hsteps', going₂, far, near, noReset, noStop, up⟩ :=
    going₁.steps_near (304 * 63) far₁ (by decide) noReset₁ noStop₁ up₁ []
  have driven : Driven {} {} m₂ := steps_keep .step (steps_keep .step (.new hnew) hsteps) hsteps'
  have reachable : m₂.Reachable := steps_keep .step (steps_keep .step (.new hnew) hsteps) hsteps'
  have run : ∀ m, m = m₂ ∨ m = m₂.refresh →
      Succeeds (fun out => (out.1 = true ∧ out.2.frames = m₂.frames) ∧ ∃ t', out.2.Going t')
        (m.stepUntilFrame (2 * m₂.config.standard.cyclesPerFrame)) := by
    have budget : 2 * m₂.config.standard.cyclesPerFrame =
        2 * m₂.config.standard.cyclesPerFrame - 1 + 1 := by
      cases m₂.config.standard <;> rfl
    rw [budget]
    rintro m (rfl | rfl)
    · exact going₂.stepUntilFrame_stale far up noReset noStop
    · exact going₂.refresh.stepUntilFrame_stale far up noReset noStop
  obtain ⟨⟨report, m₃, sink⟩, hrun, complete, -, ⟨⟨rfl, -⟩, -⟩, -, status⟩ :=
    runFrame_succeeds takes_nullSink {} going₂ run fun _ hQ => hQ.2
  refine ⟨m, k, cycles, m₁, k', cycles', m₂, report, m₃, hnew, hsteps, hsteps', hrun,
    .runFrame reachable hrun, ?_⟩
  obtain ⟨m', budget, complete, hframe, -, ⟨-, none, -⟩ | ⟨rfl, shown, -, hpresent, rfl⟩⟩ :=
    runFrame_outcome hrun
  · exact absurd (none ▸ status) (by simp)
  cases hpresent
  -- The run was over behind its first instruction, which did not end the frame.
  obtain ⟨n, m₄, hstep, le_most, -, -, rfl⟩ :=
    reachable.sound.stepUntilFrame_stale (by simp [Fresh, up, noReset]) hframe
  have stepped := (going₂.step noReset).of_ok hstep
  have driven' : Driven {} {} m₄.takeFrame.deliver := .deliver (.takeFrame (driven.step hstep))
  refine ⟨driven', stepped.resetRequested.trans noReset, rfl, ?_, ?_⟩
  · rcases stepped.going with ⟨-, going', -⟩ | ⟨past, -⟩
    · have pal : m₄.board.devices.vic.standard = .pal := by
        rw [going'.live.fit.made.vic, stepped.config, (driven.onTime slow).config_eq]
      show m₄.board.devices.vic.standard.firstVisibleLine + 0 < m₄.board.devices.vic.rasterLine
      refine going'.line_lt ?_
      rw [pal]
      exact Nat.le_trans (Nat.sub_le ..) (Nat.le_trans near (by decide))
    · omega
  · intro l hl
    obtain ⟨old, -, rfl⟩ := Option.map_eq_some_iff.mp (Array.getElem?_map ▸ hl)
    rfl

/-- No colour of the chip has the four bytes that a new copy is filled with. -/
theorem palette_ne_dark (pixel : UInt8) : Vic.palette.rgba pixel ≠ [0, 0, 0, 0] := by
  have all : ∀ i : Fin 16, ((Vic.palette.get i) >>> 24).toUInt8 ≠ 0 := by decide
  intro dark
  simp only [Palette.rgba, List.cons.injEq] at dark
  exact all _ dark.2.2.2.1

/-- A sink that is made there is presented the rest of the frame. Its copy has the measures of the
cache, and the first line of it is dark. -/
theorem passed_line_missing : ∃ m k cycles m₁ k' cycles' m₂ report m₃ report' m₄ s l,
    new {} {} = .ok m ∧ steps k m = .ok (cycles, m₁) ∧ steps k' m₁ = .ok (cycles', m₂) ∧
    m₂.runFrame ({} : NullSink) = .ok (report, m₃, {}) ∧
    Projected .asked m₃ (.new Vic.palette) ∧
    m₃.runFrame (.new Vic.palette : FullFrame) = .ok (report', m₄, s) ∧
    report'.status = some .presented ∧ s.palette = Vic.palette ∧ s.width = Vic.width ∧
    s.height = m₄.board.devices.vic.cache.height ∧
    m₄.board.devices.vic.cache.lines[0]? = some l ∧
    ∀ x < Vic.width, s.pixel? x 0 ≠ some (s.palette.rgba (l.pixels.byteAt x)) := by
  have slow : ∀ rtc ∈ ({} : Config).rtc, rtc.cyclesPerSecond ≤ Cycle.headroom := by simp
  obtain ⟨m, k, cycles, m₁, k', cycles', m₂, report, m₃, hnew, hsteps, hsteps', hpresent, reachable,
    driven, past⟩ := presented_midframe
  have onTime := driven.onTime slow
  obtain ⟨t, going, left⟩ := onTime.going
  obtain ⟨⟨report', m₄, s⟩, hrun, -, complete⟩ :=
    InFrame.runFrame slow ⟨driven, going, left, rfl, past.down⟩ takes_fullFrame (.new Vic.palette)
  have projected : Projected .asked m₃ (.new Vic.palette) := .new _ reachable
  obtain ⟨m', budget, complete', hframe, ⟨-, none, -⟩ | ⟨rfl, status, rfl, hshown⟩⟩ :=
    runFrame_fullFrame hrun
  · exact absurd (none ▸ complete) (by simp)
  have sound : m'.Sound := (reachable.sound.asked true).stepUntilFrame hframe
  -- The request marks the line, but nothing renders it before the frame is presented.
  have undamaged : m'.board.devices.screen.Undamaged 0 := by
    refine (reachable.sound.asked true).stepUntilFrame_past ?_ hframe
    refine ⟨past.noReset, past.down, past.passed, fun l hl => ?_⟩
    obtain ⟨old, hold, rfl⟩ := Option.map_eq_some_iff.mp (Array.getElem?_map ▸ hl)
    exact past.undamaged old hold
  have visible : 0 < m'.board.devices.vic.cache.height := by
    rw [sound.height]
    cases m'.config.standard <;> decide
  obtain ⟨-, palette, width, height, pixels⟩ := FullFrame.present_ok ⟨rfl, .inl rfl⟩ hshown
  have hl : m'.board.devices.vic.cache.lines[0]? = some m'.board.devices.vic.cache.lines[0] :=
    Array.getElem?_eq_getElem visible
  refine ⟨m, k, cycles, m₁, k', cycles', m₂, report, m₃, report', m'.deliver, s,
    { m'.board.devices.vic.cache.lines[0] with damage := none }, hnew, hsteps, hsteps', hpresent,
    projected, hrun, status, palette, width, height.trans (Array.size_map ..).symm, ?_, ?_⟩
  · show (m'.board.devices.vic.cache.lines.map _)[0]? = _
    rw [Array.getElem?_map, hl]
    rfl
  · intro x hx shown
    have none : ¬m'.board.devices.vic.cache.lines[0].damage.Covers x := by
      rintro ⟨span, damage, -⟩
      exact absurd (damage.symm.trans (undamaged _ hl)) (by simp)
    rcases pixels 0 _ x hl hx with ⟨covered, -⟩ | ⟨-, same⟩
    · exact none covered
    · rw [same, FullFrame.pixel?_resize (by decide) hx visible, palette] at shown
      exact palette_ne_dark _ (Option.some.inj shown).symm

end Machine

end C64
