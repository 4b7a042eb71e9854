import MishaOS.Native.Exec

/-!
# Interleaved processes

The calls of `process.c` as the steps of one machine, with the points at which
a process can be switched away from.  `switch_next` enables interrupts, so the
loop over `reap_queue` behind it can be interrupted anywhere; `fork`, `clone`,
`exec` and `task_exit` run with interrupts off.  A process that was switched
away from continues with that loop, a process that has never run does not.  A
contended `spin_lock` calls `switch_task(1)` and tries again.
-/

namespace MishaOS

/-- Where a process is: in the loop over `reap_queue`, or in the `spin_lock` of
    `task_exit`. -/
inductive Frame
  /-- At `while (should_reap())`. -/
  | check
  /-- In `next_reapable_process`, at `spin_lock`. -/
  | lock
  /-- In `next_reapable_process`, with `reap_lock` taken. -/
  | locked
  /-- At `reap_process(process)`. -/
  | reap (process : Nat)
  /-- In `make_process_reapable`, at `spin_lock`. -/
  | exit
deriving DecidableEq

structure SchedWorld where
  world : ProcWorld
  /-- The calls a process is in, innermost first; each interrupt adds one. -/
  frames : Nat → List Frame
  /-- The process has been created and has not run yet. -/
  fresh : Nat → Bool

def SchedWorld.current (s : SchedWorld) : Nat := s.world.currentProcess

def SchedWorld.setFrames (s : SchedWorld) (p : Nat) (l : List Frame) : SchedWorld :=
  { s with frames := Function.update s.frames p l }

/-- The process that has become the current one in `w` continues. -/
def SchedWorld.resume (s : SchedWorld) (w : ProcWorld) : SchedWorld :=
  let p := w.currentProcess
  { world := w
    frames := if s.fresh p then s.frames else Function.update s.frames p (.check :: s.frames p)
    fresh := Function.update s.fresh p false }

/-- A call of `switch_task` or `switch_next`, which returns at once when no process is ready. -/
def SchedWorld.switch (s : SchedWorld) (f : ProcWorld → Option ProcWorld) : Option SchedWorld :=
  if processAvailable s.world then (f s.world).map s.resume
  else (f s.world).map fun w => { s with world := w }

/-- A process has been created. -/
def SchedWorld.create (s : SchedWorld) (process : Nat) (w : ProcWorld) : SchedWorld :=
  { world := w
    frames := Function.update s.frames process []
    fresh := Function.update s.fresh process true }

/-- `task_exit` from `make_process_reapable` on. -/
def SchedWorld.leave (s : SchedWorld) : Option SchedWorld :=
  if s.world.reapLock then
    (s.setFrames s.current [.exit]).switch fun w => switchTask w true
  else do
    let w ← makeProcessReapable s.world s.current
    ({ s with world := w }.setFrames s.current []).switch (switchNext walkFuel)

inductive SchedOp
  | fork (m : SpawnMem)
  | clone (m : SpawnMem)
  | exec (name : Nat) (path : List (BitVec 8)) (file : Option (Nat → BitVec 8))
      (args : List (List (BitVec 8)))
  | system (m : SpawnMem)
  | exit (r : BitVec 8)
  /-- `switch_task(1)`, from the timer or from `sys_yield`. -/
  | switch
  /-- The current process goes on in the call it is in. -/
  | advance

/-- One round of the call the current process is in. -/
def SchedWorld.advance (s : SchedWorld) : Option SchedWorld :=
  let p := s.current
  match s.frames p with
  | [] => none
  | .check :: fs => some (s.setFrames p (if shouldReap s.world then .lock :: fs else fs))
  | .lock :: fs =>
    if s.world.reapLock then s.switch fun w => switchTask w true
    else some ({ s with world := { s.world with reapLock := true } }.setFrames p (.locked :: fs))
  | .locked :: fs => do
    let (process, w) ← nextReapableProcess { s.world with reapLock := false }
    some ({ s with world := w }.setFrames p (.reap process :: fs))
  | .reap process :: fs => do
    let w ← reapProcess s.world process
    some ({ s with world := w }.setFrames p (.check :: fs))
  | .exit :: _ => s.leave

def schedStep (s : SchedWorld) : SchedOp → Option SchedWorld
  | .fork m => (fork s.world m).map (s.create m.process)
  | .clone m => (clone s.world m).map (s.create m.process)
  | .exec name path file args => some { s with world := exec s.world name path file args }
  | .system m => do
    let w ← fork s.world m
    (s.create m.process w).switch (switchNext walkFuel)
  | .exit r =>
    let x := s.world.current
    if x.id = 0 then s.switch (switchNext walkFuel)
    else { s with world := s.world.setProc s.current { x with
      status := r, finished := true } }.leave
  | .switch => s.switch fun w => switchTask w true
  | .advance => s.advance

end MishaOS
