/-
  FiveStageArm.Proofs.Shell.Actions — what may happen to a session, in any order: lines
  given to the shell, and what a host does to the machine behind the shell's back. An
  action that loads an image says which (`Action.image?`); a load that fails loads none.

  A session holds the image loaded last. Beyond that there are things no action changes: how
  the board is built, the UART's echo included, and how far back the trace goes (`Holds`).

  Proved: whatever happens, a session holds the image of the last action that loaded one
  (`Holds.perform`), and goes on holding it while none does (`Holds.of_no_image`).
-/

import FiveStageArm.Proofs.Pipeline.Calls
import FiveStageArm.Proofs.SingleCycle
import FiveStageArm.Shell.Session

namespace FiveStageArm

/-! ## The single-cycle core -/

namespace SingleCycle

inductive Call where
  | step
  | run (limit : Nat)
  | setPc (a : Address)
  | reset
  | setBreakpoints (change : Breakpoints → Breakpoints)

def Call.perform (s : SingleCycle × Machine) : Call → SingleCycle × Machine
  | step => SingleCycle.step s
  | run limit => (SingleCycle.run limit s).2
  | setPc a => (s.1.setPc a, s.2)
  | reset => s.1.reset s.2
  | setBreakpoints change => ({ s.1 with breakpoints := change s.1.breakpoints }, s.2)

theorem Call.build_perform (c : Call) (s : SingleCycle × Machine) : (c.perform s).2.board.build = s.2.board.build := by
  cases c with
  | step => exact SingleCycle.build_step s
  | run limit =>
    have kept (t : SingleCycle × Machine) (ht : t.2.board.build = s.2.board.build) :
        (SingleCycle.step t).2.board.build = s.2.board.build := by
      rw [SingleCycle.build_step, ht]
    exact runFrom_induction _ _ _ kept limit 0 rfl
  | setPc | reset | setBreakpoints => rfl

end SingleCycle

namespace Shell

/-! ## Actions -/

/-- The image the command loads, given what the files hold. -/
def Command.image? (files : Files) : Command → Option Image
  | .load file origin =>
    match files file with
    | some (b :: bs) => some ⟨align origin, b :: bs⟩
    | _ => none
  | _ => none

inductive Action where
  | line (files : Files) (text : String)
  | load (files : Files) (file : String) (origin : Address)
  | loadWords (words : List Word) (origin : Address)
  | pipeline (call : Pipeline.Call)
  | core (call : SingleCycle.Call)
  | registers (change : Registers → Registers)
  | bus (request : Bus.Request)
  | inject (bytes : List Byte)
  | clearTranscript
  | setInputs (w : Word)

namespace Action

/-- The image the action loads. -/
def image? : Action → Option Image
  | line files text =>
    match Command.parse text with
    | .ok c => c.image? files
    | .error _ => none
  | load files file origin => Command.image? files (.load file origin)
  | loadWords words origin => some ⟨align origin, words.flatMap wordBytes⟩
  | _ => none

def perform (s : Session) : Action → Session
  | line files text => (s.respond files text).session
  | load files file origin => (s.execute files (.load file origin)).2
  | loadWords words origin => (s.loadWords words origin).2
  | pipeline call =>
    let after := call.perform (s.pipeline, s.machine)
    { s with pipeline := after.1, machine := after.2 }
  | core call =>
    let after := call.perform (s.single, s.machine)
    { s with single := after.1, machine := after.2 }
  | registers change => { s with machine := { s.machine with registers := change s.registers } }
  | bus request => s.setBoard (request.perform s.board)
  | inject bytes => s.setBoard (s.board.inject bytes)
  | clearTranscript => s.setBoard (s.board.setUart s.board.uart.clearTranscript)
  | setInputs w => s.setBoard (s.board.setInputs w)

end Action

/-- The session after the actions, one after the other. -/
def perform (actions : List Action) (s : Session) : Session := actions.foldl Action.perform s

/-! ## What a session holds -/

/-- The image, and what every session has and no action changes. -/
structure Holds (image : Option Image) (s : Session) : Prop where
  image : s.image = image
  build : s.board.build = Session.fresh.board.build
  history : s.pipeline.trace.history = Pipeline.Trace.defaultHistory

theorem holds_fresh : Holds none .fresh := ⟨rfl, rfl, rfl⟩

theorem wired_fresh : Session.fresh.board.Wired := Bus.wired_empty.setDevice rfl

namespace Holds

variable {image : Option Image} {s : Session} (h : Holds image s)

include h

/-! ### The board -/

theorem setBoard {b : Board} (hb : b.build = s.board.build) : Holds image (s.setBoard b) :=
  ⟨h.image, hb.trans h.build, h.history⟩

theorem drain : Holds image s.drain.2 := h.setBoard rfl

theorem wired : s.board.Wired := wired_fresh.of_build h.build

theorem setUart {u : Uart} (hu : u.reset = s.board.uart.reset) : Holds image (s.setBoard (s.board.setUart u)) := by
  refine h.setBoard (Bus.build_setDevice _ _ ?_)
  rw [h.wired.device_uart]
  exact congrArg Device.uart hu

theorem setInputs (w : Word) : Holds image (s.setBoard (s.board.setInputs w)) :=
  h.setBoard (Bus.build_setDevice _ _ (Bus.reset_device_of_build h.build Board.gpioSlot).symm)

/-! ### The cores -/

theorem pipeline (call : Pipeline.Call) : Holds image (Action.perform s (.pipeline call)) :=
  ⟨h.image, (call.build_perform _).trans h.build, (call.history_perform _).trans h.history⟩

theorem core (call : SingleCycle.Call) : Holds image (Action.perform s (.core call)) :=
  ⟨h.image, (call.build_perform _).trans h.build, h.history⟩

theorem advance : Holds image s.advance := by
  unfold Session.advance
  split
  · exact h.core .step
  · exact h.pipeline .cycle

theorem runFor (limit : Nat) : Holds image (s.runFor limit).2 := by
  unfold Session.runFor
  split
  · exact h.core (.run limit)
  · exact h.pipeline (.run limit)

theorem steps (shown : String) (count : Nat) : Holds image (s.steps shown count).2 := by
  induction count generalizing s shown with
  | zero => exact h
  | succ count ih =>
    unfold Session.steps
    have next := h.advance.drain
    simp only []
    split
    · exact next
    · exact ih next _

/-! ### Loading -/

theorem restore (loaded : Image) : Holds (some loaded) (s.restore loaded) := by
  refine ⟨rfl, ?_, h.history⟩
  show (s.board.reset.loadBytes loaded.origin loaded.bytes).build = _
  rw [Bus.build_loadBytes, Bus.build_reset, h.build]

theorem load (files : Files) (file : String) (origin : Address) :
    Holds ((Command.image? files (.load file origin)).or image) (s.execute files (.load file origin)).2 := by
  simp only [Session.execute, Session.load, Command.image?]
  cases files file with
  | none => exact h
  | some bytes =>
    cases bytes with
    | nil => exact h
    | cons b bs => exact (h.restore ⟨align origin, b :: bs⟩).drain

/-- Without a program a command does nothing. -/
theorem withImage {k : Image → String × Session} (hk : ∀ i, s.image = some i → Holds image (k i).2) :
    Holds image (s.withImage k).2 := by
  unfold Session.withImage
  cases hi : s.image with
  | none => exact h
  | some i => exact hk i hi

/-! ### Commands -/

theorem execute (files : Files) (c : Command) : Holds ((c.image? files).or image) (s.execute files c).2 := by
  cases c with
  | load file origin => exact h.load files file origin
  | run limit => exact h.withImage fun _ _ => (h.runFor limit).drain
  | step count => exact h.withImage fun _ _ => h.steps "" count
  | reset =>
    refine h.withImage fun i hi => ?_
    have same : some i = image := hi.symm.trans h.image
    exact same ▸ (h.restore i).drain
  | setPc a =>
    show Holds image (s.setPc a)
    unfold Session.setPc
    split <;> exact ⟨h.image, h.build, h.history⟩
  | setMode m => cases m <;> exact ⟨h.image, h.build, h.history⟩
  | showPipeline =>
    simp only [Session.execute]
    split <;> exact h
  | send text => exact h.setUart rfl
  | clearTranscript => exact h.setUart rfl
  | drivePins w => exact h.setInputs w
  | setRegister r w | setHazards on | setForwarding on | setTrace on | setBreakpoint a | clearBreakpoints =>
    exact ⟨h.image, h.build, h.history⟩
  | _ => exact h

theorem perform (a : Action) : Holds (a.image?.or image) (a.perform s) := by
  cases a with
  | line files text =>
    simp only [Action.image?, Action.perform, Session.respond]
    cases Command.parse text with
    | ok c => exact h.execute files c
    | error refusal => exact h
  | load files file origin => exact h.load files file origin
  | loadWords words origin => exact (h.restore ⟨align origin, words.flatMap wordBytes⟩).drain
  | pipeline call => exact h.pipeline call
  | core call => exact h.core call
  | registers change => exact ⟨h.image, h.build, h.history⟩
  | bus request => exact h.setBoard (request.build_perform _)
  | inject bytes => exact h.setUart rfl
  | clearTranscript => exact h.setUart rfl
  | setInputs w => exact h.setInputs w

/-! ### Any actions -/

theorem exists_perform (actions : List Action) : ∃ held, Holds held (Shell.perform actions s) := by
  induction actions generalizing image s with
  | nil => exact ⟨image, h⟩
  | cons a actions ih => exact ih (h.perform a)

theorem of_no_image {actions : List Action} (keeps : ∀ a ∈ actions, a.image? = none) :
    Holds image (Shell.perform actions s) := by
  induction actions generalizing s with
  | nil => exact h
  | cons a actions ih =>
    have next := h.perform a
    rw [keeps a List.mem_cons_self] at next
    exact ih next fun b hb => keeps b (List.mem_cons_of_mem a hb)

end Holds

end Shell

end FiveStageArm
