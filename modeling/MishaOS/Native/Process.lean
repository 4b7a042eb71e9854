import MishaOS.ForStd.Fifo
import MishaOS.Native.Paging
import MishaOS.Native.Tree

/-!
# Processes

`process.c` on one state.  The registers and the contents of stacks are not
modelled: `switch_next` makes another process the current one, `fork` and
`clone` return in the parent.  A queue node is named by its process.  The
addresses `malloc` returns are parameters, as is what a new process structure
holds before it is written.  Calls run one after another, so a lock is free
when a call starts unless an earlier one has kept it; only `reap_lock` can be
kept.  `none` stands for a call that does not return.
-/

namespace MishaOS

open Fifo

/-- `ximage_t` -/
structure Ximage where
  size : Nat
  entry : Nat
  heap : Nat
  heapAligned : Nat
  stack : Nat
  userStack : Nat
  start : Nat
deriving DecidableEq

/-- `fd_list_t` -/
structure FdList where
  link : Nat
  value : Nat
  fd : Nat
deriving DecidableEq

/-- `process_t`; the two queue nodes are kept apart. -/
structure Process where
  id : BitVec 32
  name : Nat
  /-- `thread.page_directory` -/
  pageDirectory : Nat
  image : Ximage
  processTree : Nat
  workingDirPath : Nat
  workingDirEntry : Nat
  fds : Nat
  stdout : Nat
  stderr : Nat
  stdin : Nat
  currentFd : Nat
  status : BitVec 8
  finished : Bool
  started : Bool
  /-- `queue_node.queued` -/
  queued : Bool
deriving DecidableEq

structure ProcWorld where
  paging : Paging
  /-- The address of the kernel's own `page_directory`. -/
  kernelDirectory : Nat
  heap : TreeStore
  proc : Nat → Process
  fd : Nat → FdList
  queueNode : Nat → Links Nat
  reapNode : Nat → Links Nat
  processTree : Nat
  processQueue : Ends Nat
  reapQueue : Ends Nat
  reapLock : Bool
  currentProcess : Nat
  currentPid : BitVec 32
  /-- The processes created and not yet deleted, newest first. -/
  live : List Nat

def ProcWorld.setProc (w : ProcWorld) (p : Nat) (x : Process) : ProcWorld :=
  { w with proc := Function.update w.proc p x }

def ProcWorld.setFd (w : ProcWorld) (p : Nat) (x : FdList) : ProcWorld :=
  { w with fd := Function.update w.fd p x }

/-- `malloc` returns each of these addresses. -/
def ProcWorld.malloc (w : ProcWorld) (l : List Nat) : ProcWorld :=
  { w with heap := l.foldl TreeStore.alloc w.heap }

def ProcWorld.free (w : ProcWorld) (p : Nat) : ProcWorld := { w with heap := w.heap.free p }

/-- The process that is running. -/
def ProcWorld.current (w : ProcWorld) : Process := w.proc w.currentProcess

/-! ## Creating processes -/

/-- What `malloc` returns in `spawn_process`: the addresses of the blocks, and
    what the process structure holds. -/
structure SpawnMem where
  process : Nat
  name : Nat
  tree : Nat
  fds : List Nat
  path : Nat
  node : Nat
  child : Nat
  junk : Process

/-- The blocks `spawn_process` allocates, apart from the descriptor list. -/
def SpawnMem.blocks (m : SpawnMem) : List Nat :=
  [m.process, m.name, m.tree, m.path, m.node, m.child]

/-- The loop of `spawn_process` that copies a descriptor list: `current_fd` is
    the first address of the list, the other addresses are allocated on the way. -/
def copyFds (w : ProcWorld) (fd : Nat) : List Nat → Option ProcWorld
  | [] => if fd = 0 then some w else none
  | currentFd :: rest =>
    if fd = 0 then some w
    else
      let w := (w.malloc [currentFd]).setFd currentFd (w.fd fd)
      let link := (w.fd fd).link
      match rest with
      | [] => if link = 0 then some w else none
      | next :: rest' =>
        if link = 0 then some w
        else copyFds (w.setFd currentFd { w.fd currentFd with link := next }) link (next :: rest')

def spawnProcess (w : ProcWorld) (m : SpawnMem) (parent : Nat) : Option ProcWorld := do
  let (stack, pfa) ← pfaRequestPages w.paging.pfa 8
  let id := w.currentPid + 1
  let w := { w with paging := { w.paging with pfa := pfa }, currentPid := id }
  let w := w.malloc [m.process, m.name, m.path]
  let w := { w with heap := treeCreate w.heap m.tree }
  let w ← copyFds w (w.proc parent).fds m.fds
  let x := w.proc parent
  let w := w.setProc m.process { m.junk with
    id := id
    name := m.name
    image := { m.junk.image with
      entry := x.image.entry
      heap := x.image.heap
      heapAligned := x.image.heapAligned
      stack := u32 (stack + 0x8000)
      userStack := x.image.userStack }
    processTree := m.tree
    fds := if x.fds ≠ 0 then m.fds.headD 0 else 0
    stdout := x.stdout
    stderr := x.stderr
    stdin := x.stdin
    currentFd := x.currentFd
    workingDirEntry := x.workingDirEntry
    workingDirPath := m.path
    status := 0
    finished := false
    started := false
    queued := false }
  let w := { w with
    queueNode := Function.update w.queueNode m.process ⟨0, 0⟩
    reapNode := Function.update w.reapNode m.process ⟨0, 0⟩ }
  some { w with
    heap := treeInsertValue w.heap m.node m.child (w.proc parent).processTree m.process
    live := m.process :: w.live }

def setProcessPageDirectory (w : ProcWorld) (process pageDir : Nat) : ProcWorld :=
  if process = 0 ∨ pageDir = 0 then w
  else
    let stack := sub32 (w.proc process).image.stack 0x8000
    let paging := (pageRun stack 8).foldl (fun m ptr =>
      pdeMapUserMemory m w.kernelDirectory ptr (pdeGetPhysAddr m m.currentPageDirectory ptr))
        w.paging
    { w with paging := paging }.setProc process { w.proc process with pageDirectory := pageDir }

/-- `process_add_fd`, with `malloc` returning `entry`. -/
def processAddFd (w : ProcWorld) (entry process file : Nat) : ProcWorld :=
  if process = 0 ∨ file = 0 then w
  else
    let x := w.proc process
    let fd := u32 (x.currentFd + 1)
    let w := (w.malloc [entry]).setFd entry ⟨x.fds, file, fd⟩
    w.setProc process { x with currentFd := fd, fds := entry }

/-- The number `process_add_fd` returns. -/
def addedFd (w : ProcWorld) (process file : Nat) : Nat :=
  if process = 0 ∨ file = 0 then 0xFFFFFFFF else u32 ((w.proc process).currentFd + 1)

/-- The loop of `process_get_fd`. -/
def getFdFrom : Nat → ProcWorld → (entry fd : Nat) → Option Nat
  | 0, _, _, _ => none
  | n + 1, w, entry, fd =>
    if entry = 0 then some 0
    else if (w.fd entry).fd = fd then some (w.fd entry).value
    else getFdFrom n w (w.fd entry).link fd

def processGetFd (w : ProcWorld) (process fd : Nat) : Option Nat :=
  getFdFrom walkFuel w (w.proc process).fds fd

/-- `process_clone_fd`, with `malloc` returning `entry`; `junk` is what this block
    holds where its number is, which is not written. -/
def processCloneFd (w : ProcWorld) (entry : Nat) (junk : BitVec 32) (process : Nat)
    (fromFd toFd : BitVec 32) :
    Option (BitVec 32 × ProcWorld) := do
  let file ← processGetFd w process fromFd.toNat
  if file = 0 then some (0xFFFFFFFF, w)
  else
    let x := w.proc process
    let w := (w.malloc [entry]).setFd entry ⟨x.fds, file, junk.toNat⟩
    some (toFd, w.setProc process { x with
      currentFd := if x.currentFd < toFd.toNat then toFd.toNat else x.currentFd
      fds := entry })

/-- What `malloc` returns in `spawn_init`. -/
structure InitMem where
  init : Nat
  tree : Nat
  name : Nat
  path : Nat
  stdout : Nat
  stdoutEntry : Nat
  stderr : Nat
  stderrEntry : Nat
  stdin : Nat
  stdinEntry : Nat
  junk : Process

def InitMem.blocks (m : InitMem) : List Nat :=
  [m.init, m.tree, m.name, m.path, m.stdout, m.stdoutEntry, m.stderr, m.stderrEntry, m.stdin,
    m.stdinEntry]

/-- `spawn_init`; `rootDir` is the result of `get_root_dir`. -/
def spawnInit (w : ProcWorld) (m : InitMem) (rootDir esp : Nat) : ProcWorld :=
  let w := w.malloc [m.init, m.name, m.path, m.stdout, m.stderr, m.stdin]
  let w := { w with heap := treeCreate w.heap m.tree, processTree := m.tree }
  let w := { w with heap := w.heap.setNode m.tree { w.heap.node m.tree with value := m.init } }
  let w := w.setProc m.init { m.junk with
    id := 0
    name := m.name
    processTree := m.tree
    status := 0
    fds := 0
    currentFd := 0
    workingDirEntry := rootDir
    workingDirPath := m.path
    image := { m.junk.image with
      entry := 0, heap := 0, heapAligned := 0, stack := u32 (esp + 1), userStack := 0, size := 0 }
    finished := false
    started := true
    queued := false }
  let w := { w with
    queueNode := Function.update w.queueNode m.init ⟨0, 0⟩
    reapNode := Function.update w.reapNode m.init ⟨0, 0⟩ }
  let w := processAddFd w m.stdoutEntry m.init m.stdout
  let w := processAddFd w m.stderrEntry m.init m.stderr
  -- the pipe of standard input is a frame
  let w := { w with paging := w.paging.requestPage.2 }
  let w := processAddFd w m.stdinEntry m.init m.stdin
  { w.setProc m.init { w.proc m.init with
    stdout := m.stdout, stderr := m.stderr, stdin := m.stdin } with
    live := m.init :: w.live }

def initProcess (w : ProcWorld) (m : InitMem) (rootDir esp : Nat) : ProcWorld :=
  let w := { spawnInit w m rootDir esp with currentProcess := m.init }
  let w := setProcessPageDirectory w w.currentProcess w.paging.currentPageDirectory
  { w with paging := enablePaging w.paging w.current.pageDirectory }

/-! ## The queues -/

def makeProcessReady (w : ProcWorld) (process : Nat) : ProcWorld :=
  if process = 0 then w
  else
    let (node, queue) := push 0 w.queueNode w.processQueue process
    { w with queueNode := node, processQueue := queue }.setProc process
      { w.proc process with queued := true }

def makeProcessReapable (w : ProcWorld) (process : Nat) : Option ProcWorld :=
  if process = 0 then some w
  else if w.reapLock then none
  else
    let (node, queue) := push 0 w.reapNode w.reapQueue process
    some { w with reapNode := node, reapQueue := queue }

def processAvailable (w : ProcWorld) : Bool := w.processQueue.first ≠ 0

def nextReadyProcess (w : ProcWorld) : Nat × ProcWorld :=
  let process := w.processQueue.first
  if process = 0 then (0, w)
  else
    let (node, queue) := pop 0 w.queueNode w.processQueue
    (process, { w with queueNode := node, processQueue := queue }.setProc process
      { w.proc process with queued := false })

def processIsReady (w : ProcWorld) (process : Nat) : Bool := (w.proc process).queued

def shouldReap (w : ProcWorld) : Bool := w.reapQueue.first ≠ 0

def nextReapableProcess (w : ProcWorld) : Option (Nat × ProcWorld) :=
  let process := w.reapQueue.first
  if w.reapLock then none
  -- an empty queue leaves the lock taken
  else if process = 0 then some (0, { w with reapLock := true })
  else
    let (node, queue) := pop 0 w.reapNode w.reapQueue
    some (process, { w with reapNode := node, reapQueue := queue })

/-! ## Deleting processes -/

/-- `tree_find` compares the processes in the tree with this. -/
def processPidComparator (w : ProcWorld) (pid : BitVec 32) (process : Nat) : Bool :=
  process ≠ 0 && (w.proc process).id == pid

def getProcess (w : ProcWorld) (pid : BitVec 32) : Option Nat := do
  let node ← treeFind w.heap (processPidComparator w pid) treeFuel w.processTree
  some (if node ≠ 0 then (w.heap.node node).value else 0)

def deleteProcess (w : ProcWorld) (process : Nat) : Option ProcWorld :=
  if process = 0 then some w
  -- "[Error] Attempt to kill init."
  else if (w.proc process).processTree = w.processTree then some w
  else do
    let heap ← treeRemoveAndMerge w.heap (w.proc process).processTree
    some { w with heap := heap.free process, live := w.live.erase process }

/-- The loop of `reap_process` and of `clone` that frees a descriptor list. -/
def freeFds : Nat → ProcWorld → Nat → Option ProcWorld
  | 0, _, _ => none
  | n + 1, w, fd => if fd = 0 then some w else freeFds n (w.free fd) (w.fd fd).link

/-- The pages from `heap` on below `heapAligned`. -/
def heapPages (heap heapAligned : Nat) : List Nat :=
  (List.range ((heapAligned - heap + 0xFFF) / 0x1000)).map fun i => heap + i * 0x1000

/-- `entry + size`, rounded up to a page. -/
def Ximage.heapBase (image : Ximage) : Nat := roundUp32 (u32 (image.entry + image.size)) 0x1000

def reapProcess (w : ProcWorld) (process : Nat) : Option ProcWorld := do
  let x := w.proc process
  let w := (w.free x.workingDirPath).free x.name
  let w ← freeFds walkFuel w x.fds
  let pfa := pfaFreePages w.paging.pfa (sub32 x.image.stack 0x8000) 8
  let pfa := if x.image.heap ≠ 0 then
      -- the walk starts at the end of the image of the current process
      (heapPages w.current.image.heapBase x.image.heapAligned).foldl
        (fun pfa page => pfaFreePage pfa (pdeGetPhysAddr w.paging x.pageDirectory page)) pfa
    else pfa
  let w := { w with paging := pdeFree { w.paging with pfa := pfa } x.pageDirectory }
  deleteProcess w process

/-! ## Scheduling, `fork` and `clone` -/

/-- `switch_next`: a finished process is passed over while there are others. -/
def switchNext : Nat → ProcWorld → Option ProcWorld
  | 0, _ => none
  | n + 1, w =>
    if processAvailable w then
      let (process, w) := nextReadyProcess w
      let w := { w with currentProcess := process }
      if w.current.finished ∧ processAvailable w then switchNext n w
      else
        let w := { w with paging := enablePaging w.paging w.current.pageDirectory }
        some (w.setProc process { w.current with started := true })
    else some w

/-- `switch_task` up to the switch; the process that continues behind it runs
    the loop over `reap_queue`. -/
def switchTask (w : ProcWorld) (reschedule : Bool) : Option ProcWorld :=
  if w.currentProcess = 0 then some w
  else if ¬ w.current.started ∧ processAvailable w then switchNext walkFuel w
  else if processAvailable w then
    let w := w.setProc w.currentProcess { w.current with started := false }
    let w := if reschedule then makeProcessReady w w.currentProcess else w
    switchNext walkFuel w
  else some w

def fork (w : ProcWorld) (m : SpawnMem) : Option ProcWorld := do
  let (pageDir, paging) ← pdeClone w.paging w.paging.currentPageDirectory
  let w ← spawnProcess { w with paging := paging } m w.currentProcess
  let w := setProcessPageDirectory w m.process pageDir
  some (makeProcessReady w m.process)

def clone (w : ProcWorld) (m : SpawnMem) : Option ProcWorld := do
  let pageDir := w.paging.currentPageDirectory
  let w ← spawnProcess w m w.currentProcess
  let w := setProcessPageDirectory w m.process pageDir
  let w ← freeFds walkFuel w (w.proc m.process).fds
  let w := w.setProc m.process { w.proc m.process with fds := w.current.fds }
  some (makeProcessReady w m.process)

def taskExit (w : ProcWorld) (r : BitVec 8) : Option ProcWorld := do
  if w.current.id = 0 then switchNext walkFuel w
  else
    let w := w.setProc w.currentProcess { w.current with status := r, finished := true }
    let w ← makeProcessReapable w w.currentProcess
    switchNext walkFuel w

/-- One round of the loop over `reap_queue` in `switch_task`. -/
def reapNext (w : ProcWorld) : Option ProcWorld :=
  if shouldReap w then do
    let (process, w) ← nextReapableProcess w
    reapProcess w process
  else some w

end MishaOS
