import HeciMailbox.Config.Basic
import HeciMailbox.Transport.Trace

/-! Operations on a mailbox.

An operation runs against any register backend with a clock, adds what it does to a trace and either
returns or stops. A fault is an answer. A trap is a broken promise of the program itself: an offset
the window refuses, an illegal move of an exchange, a payload cut short. Loops that the hardware may
keep going for ever count down `fuel` and are abandoned as unfinished when it is spent. -/

set_option autoImplicit false

namespace HeciMailbox

inductive Trap where
  | refusedOffset (offset : UInt32)
  | illegalMove (source target : Phase)
  | shortPayload
  deriving DecidableEq, Repr

inductive Stop where
  | fault (fault : Fault)
  | trap (trap : Trap)
  | unfinished
  deriving DecidableEq, Repr

structure World (σ : Type) where
  hardware : σ
  trace : Array Entry := #[]

abbrev Op (σ α : Type) := EStateM Stop (World σ) α

structure Link where
  config : Config
  device : Handle
  /-- How many rounds a wait, or the reading of one message, may take. -/
  fuel : Nat

def Link.ofConfig (config : Config) (baseAddress : UInt64) (fuel : Nat) : Link where
  config := config
  device := ⟨config.device, baseAddress, config.maxLength.toNat⟩
  fuel := fuel

namespace Op

variable {σ α : Type}

def record (entry : Entry) : Op σ Unit :=
  modify fun world => { world with trace := world.trace.push entry }

def emit (event : Event) : Op σ Unit := record (.event event)

def remark (remark : Remark) : Op σ Unit := record (.remark remark)

def fail (fault : Fault) : Op σ α := throw (.fault fault)

def trap (trap : Trap) : Op σ α := throw (.trap trap)

def ofExcept : Except Fault α → Op σ α
  | .ok value => pure value
  | .error fault => fail fault

/-- Run an operation and return its fault as a value. Traps still stop. -/
def attempt (op : Op σ α) : Op σ (Except Fault α) := fun world =>
  match op world with
  | .ok value world => .ok (.ok value) world
  | .error (.fault fault) world => .ok (.error fault) world
  | .error stop world => .error stop world

section Hardware

variable [Registers σ] [Clock σ]

def readRegister (offset : UInt32) : Op σ UInt32 := do
  let answer ← modifyGet fun world =>
    match Registers.read offset world.hardware with
    | some (value, hardware) =>
      (some value, { hardware, trace := world.trace.push (.read offset value) })
    | none => (none, world)
  match answer with
  | some value => pure value
  | none => trap (.refusedOffset offset)

/-- Write a register. The entry is made before the write, so a refused offset leaves one. -/
def writeRegister (offset value : UInt32) : Op σ Unit := do
  record (.write offset value)
  let accepted ← modifyGet fun world =>
    match Registers.write offset value world.hardware with
    | some hardware => (true, { world with hardware })
    | none => (false, world)
  if accepted then pure () else trap (.refusedOffset offset)

def writeWords : List UInt32 → Op σ Unit
  | [] => pure ()
  | word :: rest => do
    writeRegister Register.hostWindow word
    writeWords rest

def takeWords : Nat → Op σ (List UInt32)
  | 0 => pure []
  | count + 1 => do
    let word ← readRegister Register.controllerWindow
    let rest ← takeWords count
    pure (word :: rest)

def now : Op σ Nat := do
  let world ← get
  pure (Clock.now world.hardware)

def pause (microseconds : Nat) : Op σ Unit :=
  modify fun world => { world with hardware := Clock.pause microseconds world.hardware }

def deadlineAfter (timeout : Nat) : Op σ Deadline := do
  pure (Deadline.after (← now) timeout)

/-- Rounds of a wait: look, and unless the look gives a value or the deadline has passed, pause and
look again. A pause never outlasts the deadline. -/
def poll (interval : Nat) (deadline : Deadline) (look : Op σ (Option α)) : Nat → Op σ α
  | 0 => throw .unfinished
  | rounds + 1 => do
    match ← look with
    | some value => pure value
    | none =>
      match deadline.remaining? (← now) with
      | none => fail (.timeout deadline.milliseconds)
      | some left =>
        pause (min interval left)
        poll interval deadline look rounds

/-- Wait until `look` gives a value. The first look comes before the first glance at the clock. -/
def await (link : Link) (deadline : Deadline) (look : Op σ (Option α)) : Op σ α := do
  record (.wait deadline)
  poll link.config.pollInterval deadline look link.fuel

end Hardware

end Op

end HeciMailbox
