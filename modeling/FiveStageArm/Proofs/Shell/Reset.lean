/-
  FiveStageArm.Proofs.Shell.Reset — what `reset` leaves of a session's history: nothing but
  its settings, which are the mode, the pipeline's configuration and the breakpoints.

  A load resets everything and then writes the image, and `reset` does the same with the
  image the session holds. The image goes through the bus, so it may drive the devices
  again; but it meets the same devices, in the state every reset leaves them in. What comes
  out is thus a matter of the image and of how the board is built, and no action but a load
  changes either.

  Proved: loading an image leaves any session as it leaves a new one, settings apart
  (`restore_drain`), so a reset after any actions leads back to the last load
  (`reset_to_load`).
-/

import FiveStageArm.Proofs.Shell.Actions

namespace FiveStageArm.Shell

/-- The session with the settings of another. -/
def Session.withSettings (s other : Session) : Session :=
  { s with
    mode := other.mode
    single := { s.single with breakpoints := other.single.breakpoints }
    pipeline := { s.pipeline with config := other.pipeline.config, breakpoints := other.pipeline.breakpoints } }

/-! ## Loading an image -/

theorem execute_of_image? {files : Files} {c : Command} {image : Image} (h : c.image? files = some image)
    (s : Session) : (s.execute files c).2 = (s.restore image).drain.2 := by
  cases c with
  | load file origin =>
    simp only [Command.image?] at h
    split at h
    · rename_i b bs found
      cases h
      simp only [Session.execute, Session.load, found]
    · cases h
  | _ => cases h

/-- The ways to load an image differ in what they print. -/
theorem Action.perform_of_image? {a : Action} {image : Image} (h : a.image? = some image) (s : Session) :
    a.perform s = (s.restore image).drain.2 := by
  cases a with
  | line files text =>
    simp only [image?] at h
    simp only [perform, Session.respond]
    cases hp : Command.parse text with
    | ok c =>
      rw [hp] at h
      exact execute_of_image? h s
    | error refusal =>
      rw [hp] at h
      cases h
  | load files file origin =>
    simp only [image?] at h
    exact execute_of_image? h s
  | loadWords words origin =>
    cases h
    rfl
  | _ => cases h

theorem restore_drain {held : Option Image} {s : Session} (h : Holds held s) (image : Image) :
    (s.restore image).drain.2 = (Session.fresh.restore image).drain.2.withSettings s := by
  have board : (s.board.reset.loadBytes image.origin image.bytes).quiet =
      (Session.fresh.board.reset.loadBytes image.origin image.bytes).quiet := by
    rw [Bus.quiet_loadBytes, Bus.quiet_reset _ h.wired.mapped, h.build,
      ← Bus.quiet_reset _ wired_fresh.mapped, ← Bus.quiet_loadBytes]
  have trace : s.pipeline.trace.clear = Session.fresh.pipeline.trace.clear := by
    unfold Pipeline.Trace.clear
    rw [h.history]
    rfl
  have restored (t : Session) : (t.restore image).drain.2 =
      { machine := ⟨(t.board.reset.loadBytes image.origin image.bytes).quiet, .zero⟩
        single := { SingleCycle.fresh with breakpoints := t.single.breakpoints }.setPc image.origin
        pipeline := { Pipeline.fresh with
          config := t.pipeline.config, breakpoints := t.pipeline.breakpoints, trace := t.pipeline.trace.clear }.setPc
            image.origin
        image := some image, mode := t.mode } := rfl
  rw [restored, restored, board, trace]
  rfl

/-! ## Resetting -/

theorem parse_reset : Command.parse "reset" = .ok .reset := by
  have split : words "reset" = ["reset"] := by decide +kernel
  have small : lower "reset" = "reset" := by decide +kernel
  have found : keyword? "reset" = some .reset := rfl
  simp only [Command.parse, split, small, found, Keyword.parse]

theorem respond_reset {image : Image} {s : Session} (h : Holds (some image) s) (files : Files) :
    (s.respond files "reset").session = (s.restore image).drain.2 := by
  simp only [Session.respond, parse_reset, Session.execute, Session.withImage, h.image, Session.reset]

/-- After a reset the session is the one that the last load left, but for its settings, which a
    reset does not touch. -/
theorem reset_to_load {before after : List Action} {load : Action} {image : Image} (loads : load.image? = some image)
    (keeps : ∀ a ∈ after, a.image? = none) (files : Files) :
    let loaded := perform (before ++ [load]) .fresh
    let s := perform after loaded
    (s.respond files "reset").session = loaded.withSettings s := by
  intro loaded s
  obtain ⟨held, any⟩ := holds_fresh.exists_perform before
  have split : loaded = load.perform (perform before .fresh) := by
    simp only [loaded, perform, List.foldl_append, List.foldl_cons, List.foldl_nil]
  have holds : Holds (some image) loaded := by
    rw [split]
    have next := any.perform load
    rwa [loads] at next
  have later : Holds (some image) s := holds.of_no_image keeps
  calc (s.respond files "reset").session
      = (s.restore image).drain.2 := respond_reset later files
    _ = (Session.fresh.restore image).drain.2.withSettings s := restore_drain later image
    _ = ((Session.fresh.restore image).drain.2.withSettings (perform before .fresh)).withSettings s := rfl
    _ = ((perform before .fresh).restore image).drain.2.withSettings s := by rw [← restore_drain any]
    _ = loaded.withSettings s := by rw [split, Action.perform_of_image? loads]

/-- A program that sets R1 and halts. -/
def setAndHalt : List Byte := [0x05, 0x10, 0xA0, 0xE3, 0xFE, 0xFF, 0xFF, 0xEA]

def oneFile : Files := fun file => if file = "set.bin" then some setAndHalt else none

/-- A load that fails, runs of both cores, received bytes, driven pins and a staged write. -/
def busy : List Action :=
  [.line oneFile "load other.bin", .line oneFile "run 20", .line oneFile "uart send go", .line oneFile "mode single",
    .line oneFile "break 0x104", .line oneFile "step", .setInputs 5, .registers (·.stageWrite .lr 7),
    .pipeline (.setPc 0x40), .bus (.write 0x10000 1)]

theorem reset_to_load_busy :
    Action.image? (.line oneFile "load set.bin 0x100") = some ⟨0x100, setAndHalt⟩ ∧ (∀ a ∈ busy, a.image? = none) ∧
      (let loaded := perform ([.line oneFile "step"] ++ [.line oneFile "load set.bin 0x100"]) .fresh
      let s := perform busy loaded
      s.board.uart.received = [103, 111, 10] ∧ s.board.fetches = 7 ∧
        (s.respond oneFile "reset").session = loaded.withSettings s) :=
  have loads : Action.image? (.line oneFile "load set.bin 0x100") = some ⟨0x100, setAndHalt⟩ := by decide +kernel
  have keeps : ∀ a ∈ busy, a.image? = none := by decide +kernel
  ⟨loads, keeps, by decide +kernel, by decide +kernel, reset_to_load loads keeps oneFile⟩

end FiveStageArm.Shell
