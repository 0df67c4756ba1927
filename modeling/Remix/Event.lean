import Remix.Audio.Level
import Remix.Number.Text
import Remix.Plan.Basic

/-!
# Events

What a run of a recipe tells about itself, how important each piece of it is, and how it is put
into words.
-/

namespace Remix

/-- How important an event is, the most important level first. -/
inductive Severity where
  | warn
  | info
  | debug
  | trace
  deriving DecidableEq, Repr

namespace Severity

def rank : Severity → Nat
  | warn => 0
  | info => 1
  | debug => 2
  | trace => 3

def name : Severity → String
  | warn => "warn"
  | info => "info"
  | debug => "debug"
  | trace => "trace"

end Severity

/-- A buffer that is let go after its last reader. -/
inductive Freed where
  | stem (s : Stem)
  | workingCopy (name : String)
  | sink (name : String)
  deriving DecidableEq, Repr

/-- Something that happens while a recipe is read, planned, executed, mixed or written. -/
inductive Event where
  | dropped (statement : Nat)
  | planned (statement : Nat) (origin : Origin) (sink : Sink)
  | deadSink (name : String)
  | compiled (statements : Nat) (saved : List String)
  | rendering (input output : String)
  | renderStarted (run : String)
  | stemIgnored (stem : Stem) (path first : String)
  | stemLoading (stem : Stem) (path : String)
  | stemsLoaded (stems : List Stem) (path : String)
  | separating (path : String)
  | separated (count : Nat) (path : String)
  | executing (statements actions : Nat)
  | stemUnread (stem : Stem)
  | freed (what : Freed)
  | applying (statement : Nat) (action : Action) (input : Buffer)
  | executed (statements saved : Nat)
  | mixing (buffers samples channels : Nat)
  | normalized (gain : Float32)
  | clipping (peak : Float32)
  | wrote (path : String) (seconds : Float)

namespace Event

def severity : Event → Severity
  | deadSink _ | stemIgnored _ _ _ | clipping _ => .warn
  | compiled _ _ | rendering _ _ | renderStarted _ | stemsLoaded _ _ | separated _ _
  | executing _ _ | executed _ _ | normalized _ | wrote _ _ => .info
  | dropped _ | planned _ _ _ | stemLoading _ _ | stemUnread _ | freed _ | applying _ _ _
  | mixing _ _ _ => .debug
  | separating _ => .trace

def message : Event → String
  | dropped i => s!"Discarding statement {i} (ends in drop)"
  | planned i origin sink => s!"Planned statement {i}: {origin.text} -> {sink.text}"
  | deadSink name => s!"Sink '{name}' is neither saved nor used by a later statement"
  | compiled n saved =>
    s!"Recipe compiled: {n} statements, saving " ++ ", ".intercalate saved
  | rendering input output => s!"Rendering {input} -> {output}"
  | renderStarted run => s!"Render {run} started"
  | stemIgnored s path first =>
    s!"Ignoring {path}: stem '{s.name}' already found at {first}"
  | stemLoading s path => s!"Loading stem '{s.name}' from {path}"
  | stemsLoaded stems path =>
    s!"Loaded {stems.length} stem(s) from {path}: " ++ ", ".intercalate (stems.map (·.name))
  | separating path => s!"Separating {path}"
  | separated n path => s!"Separated {n} stems from {path}"
  | executing n actions => s!"Executing {n} statements ({actions} transforms)"
  | stemUnread s => s!"Stem '{s.name}' is never read, dropping it"
  | freed (.stem s) => s!"Released stem '{s.name}'"
  | freed (.workingCopy name) => s!"Dropped working copy of saved sink '{name}'"
  | freed (.sink name) => s!"Released sink '{name}'"
  | applying i a _ => s!"Statement {i}: applying {a.keyword}"
  | executed n saved => s!"Executed {n} statements, {saved} buffers retained"
  | mixing buffers samples channels =>
    s!"Mixing {buffers} buffers: {samples} samples, {channels} channels"
  | normalized gain =>
    s!"Normalized mix by {fixedFloat32Text 2 (decibels gain)} dB"
  | clipping peak =>
    s!"Mix peaks at {fixedFloat32Text 2 (decibels peak)} dBFS and will clip on export"
  | wrote path seconds => s!"Wrote {path} ({fixedFloatText 2 seconds}s)"

/-- The lines of a log for an event. The application of an action is followed by the name of what
it does, where `describe` gives one. That separation begins is not worth a line. -/
def lines (describe : Action → Option String) (e : Event) : List (Severity × String) :=
  let own := (e.severity, e.message)
  match e with
  | applying _ a _ =>
    match describe a with
    | some name => [own, (.trace, s!"{a.keyword}: {name}")]
    | none => [own]
  | separating _ => []
  | _ => [own]

end Event

/-- The log of some events down to a level. -/
def logOf (level : Severity) (describe : Action → Option String) (events : List Event) :
    List (Severity × String) :=
  (events.flatMap (Event.lines describe)).filter fun line => line.1.rank ≤ level.rank

end Remix
