import WireRpc.Codec
import WireRpc.Library.Framing

/-!
# Frames over TCP and stdio

The two ends of one connection, with any number of `send` and `recv` calls on
each. The network is the events: bytes arrive in pieces of any size, and a
connection that breaks is one whose remaining bytes never arrive. Every call may
fail at each of its awaits, by a timeout, a cancellation or a broken connection.
-/
namespace WireRpc.FrameChannel
open Library Framing

inductive Kind where
  | tcp
  | stdio
  deriving DecidableEq

/-- What `_read_frame` asks `readexactly` for until it has the length. -/
def Kind.headerReads : Kind → List ℕ
  | tcp => [1, 3]
  | stdio => [4]

inductive Side where
  | client
  | server
  deriving DecidableEq

def Side.other : Side → Side
  | client => server
  | server => client

@[simp] theorem Side.other_other (x : Side) : x.other.other = x := by cases x <;> rfl

theorem Side.eq_other_of_ne {x y : Side} (h : y ≠ x) : y = x.other := by
  cases x <;> cases y <;> simp_all [Side.other]

/-- The constructors refuse limits that do not fit the length of a frame. -/
structure Config where
  kind : Kind
  maxFrameSize : Side → ℕ
  positive : ∀ x, 0 < maxFrameSize x
  fits : ∀ x, maxFrameSize x ≤ 0xFFFFFFFF

def Config.Invalid (c : Config) (x : Side) (length : ℕ) : Prop :=
  length = 0 ∨ c.maxFrameSize x < length

instance (c : Config) (x : Side) (length : ℕ) : Decidable (c.Invalid x length) :=
  inferInstanceAs (Decidable (_ ∨ _))

/-- A `send` call: not made, waiting for the write lock, or awaiting `drain`. -/
inductive Sender where
  | absent
  | waiting (data : Bytes)
  | draining
  | over

/-- A `recv` call: not made, waiting for the read lock, or in `_read_frame`, where
`held` is what it has read of the header and `reads` what it still asks for. -/
inductive Reader where
  | absent
  | waiting
  | header (held : Bytes) (reads : List ℕ)
  | payload (header : Bytes)
  | over

/-- The bytes of an unfinished frame that a call has taken from the stream. -/
def Reader.held : Reader → Option Bytes
  | header bytes _ => some bytes
  | payload bytes => some bytes
  | _ => none

/-- One end. `closing` is that of its writer, and `buffer` holds what has arrived
and nobody has read. The last four fields are the history: how many bytes have
arrived, all bytes handed to the network, and the payloads written and returned. -/
structure Endpoint where
  closing : Bool
  writeLock : Option ℕ
  senders : ℕ → Sender
  readLock : Option ℕ
  readers : ℕ → Reader
  buffer : Bytes
  arrived : ℕ
  sent : Bytes
  written : List Bytes
  returned : List Bytes

abbrev State := Side → Endpoint

def start : State := fun _ =>
  { closing := false
    writeLock := none
    senders := fun _ => .absent
    readLock := none
    readers := fun _ => .absent
    buffer := []
    arrived := 0
    sent := []
    written := []
    returned := [] }

/-- `write` and `startRead` are the moments a waiting call gets the lock. `tear` is
a write that raises after `n` bytes, `lost` what a failing read has consumed, and
`malformed` a peer that puts a length in front which the other end refuses. -/
inductive Op where
  | send (t : ℕ) (data : Bytes) (idle : Bool)
  | write (t : ℕ)
  | tear (t n : ℕ)
  | drained (t : ℕ)
  | failSend (t : ℕ)
  | recv (t : ℕ)
  | startRead (t : ℕ)
  | read (t : ℕ)
  | failRead (t lost : ℕ)
  | deliver (n : ℕ)
  | malformed (header rest : Bytes)
  | close

abbrev Event := Side × Op

section
variable (c : Config) (x : Side) (e : Endpoint) (t : ℕ)

def setSender (phase : Sender) : Endpoint :=
  { e with senders := Function.update e.senders t phase }

def setReader (phase : Reader) : Endpoint :=
  { e with readers := Function.update e.readers t phase }

/-- TCP checks the payload and the idle deadline before it asks for the lock. -/
def send (data : Bytes) (idle : Bool) : Endpoint :=
  match c.kind with
  | .tcp =>
    if c.Invalid x data.length then setSender e t .over
    else if idle then { setSender e t .over with closing := true }
    else setSender e t (.waiting data)
  | .stdio => setSender e t (.waiting data)

/-- The lock is granted: header and payload go out without an await between them. -/
def write (data : Bytes) : Endpoint :=
  if c.Invalid x data.length then setSender e t .over
  else if e.closing then setSender e t .over
  else
    { setSender e t .draining with
      writeLock := some t
      sent := e.sent ++ frame 4 data
      written := e.written ++ [data] }

def tear (data : Bytes) (n : ℕ) : Endpoint :=
  { setSender e t .over with
    closing := true
    sent := e.sent ++ (frame 4 data).take n }

/-- A failing read closes the connection before it gives the lock back. -/
def abandon (lost : ℕ) : Endpoint :=
  { setReader e t .over with
    closing := true
    readLock := none
    buffer := e.buffer.drop lost }

/-- One `readexactly` that succeeds. -/
def read : Option Endpoint :=
  match e.readers t with
  | .header held (n :: reads) =>
    if e.buffer.length < n then none
    else
      let held := held ++ e.buffer.take n
      if reads ≠ [] then
        some { setReader e t (.header held reads) with buffer := e.buffer.drop n }
      else if c.Invalid x (fromBytes held) then some (abandon e t n)
      else some { setReader e t (.payload held) with buffer := e.buffer.drop n }
  | .payload header =>
    if e.buffer.length < fromBytes header then none
    else some { setReader e t .over with
      readLock := none
      buffer := e.buffer.drop (fromBytes header)
      returned := e.returned ++ [e.buffer.take (fromBytes header)] }
  | _ => none

/-- What one event does at one end, when the other end has sent the bytes `peer`. -/
def act (peer : Bytes) : Op → Option Endpoint
  | .send t data idle =>
    match e.senders t with
    | .absent => some (send c x e t data idle)
    | _ => none
  | .write t =>
    match e.senders t, e.writeLock with
    | .waiting data, none => some (write c x e t data)
    | _, _ => none
  | .tear t n =>
    match e.senders t, e.writeLock with
    | .waiting data, none =>
      if c.Invalid x data.length ∨ e.closing ∨ (frame 4 data).length ≤ n then none
      else some (tear e t data n)
    | _, _ => none
  | .drained t =>
    match e.senders t with
    | .draining => some { setSender e t .over with writeLock := none }
    | _ => none
  | .failSend t =>
    match e.senders t with
    -- the `try` of TCP is around the lock, that of stdio inside it
    | .waiting _ => some { setSender e t .over with closing := e.closing || c.kind = .tcp }
    | .draining => some { setSender e t .over with closing := true, writeLock := none }
    | _ => none
  | .recv t =>
    match e.readers t with
    | .absent => some (setReader e t .waiting)
    | _ => none
  | .startRead t =>
    match e.readers t, e.readLock with
    | .waiting, none =>
      if e.closing then some (setReader e t .over)
      else some { setReader e t (.header [] c.kind.headerReads) with readLock := some t }
    | _, _ => none
  | .read t => read c x e t
  | .failRead t lost =>
    match e.readers t with
    | .waiting => some (setReader e t .over)
    | .header .. | .payload _ => some (abandon e t lost)
    | _ => none
  | .deliver n =>
    if peer.length < e.arrived + n then none
    else some { e with
      buffer := e.buffer ++ (peer.drop e.arrived).take n
      arrived := e.arrived + n }
  | .malformed header rest =>
    if header.length = 4 ∧ c.Invalid x.other (fromBytes header) ∧ e.closing = false then
      some { e with sent := e.sent ++ (header ++ rest) }
    else none
  | .close => some { e with closing := true }

end

def step (c : Config) (s : State) (event : Event) : Option State :=
  (act c event.1 (s event.1) (s event.1.other).sent event.2).map (Function.update s event.1)

/-- A read that fails: its length is invalid, or the call is cut off while it holds
the lock. -/
def EndsReading (c : Config) (x : Side) (e : Endpoint) : Op → Prop
  | .read t => ∃ held n, e.readers t = .header held [n] ∧
      c.Invalid x (fromBytes (held ++ e.buffer.take n))
  | .failRead t _ => e.readLock = some t
  | _ => False

/-- A write that fails while it holds the lock. -/
def EndsWriting (e : Endpoint) : Op → Prop
  | .tear .. => True
  | .failSend t => e.senders t = .draining
  | _ => False

end WireRpc.FrameChannel
