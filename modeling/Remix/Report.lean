import Remix.Files.Audio
import Remix.Json.Writer
import Remix.Render

/-!
# Reports

What a render to a file has done, in figures, and how it is kept in a file of its own.
-/

namespace Remix

/-- What sets one run apart from another: its name, when it began, and how many milliseconds it
took. -/
structure Stamp where
  run : String
  started : String
  elapsed : Nat
  deriving DecidableEq, Repr

/-- Figures of a render to a file. Levels are in decibels, and there are none for silence. -/
structure Report where
  stamp : Stamp
  input : String
  output : String
  statements : Nat
  saved : List String
  released : List String
  actionsApplied : Nat
  peakLive : Nat
  seconds : Float
  rate : UInt32
  channels : Nat
  gain : Float32
  peak : Option Float32
  rms : Option Float32
  checksum : String
  deriving DecidableEq

namespace Report

/-- A level that can be told as a number. -/
def level (x : Float32) : Option Float32 := if x.isFinite then some x else none

/-- The report of what was rendered. -/
def ofRendered (stamp : Stamp) (input output : String) (d : Rendered) (checksum : String) :
    Report where
  stamp
  input
  output
  statements := d.statements
  saved := d.track.sources
  released := d.stats.released
  actionsApplied := d.stats.actionsApplied
  peakLive := d.stats.peakLive
  seconds := d.track.buffer.seconds
  rate := d.track.buffer.rate
  channels := d.track.buffer.channels.length
  gain := d.track.gain
  peak := level d.track.buffer.peakDecibels
  rms := level d.track.buffer.rmsDecibels
  checksum

/-- The text of a report. -/
def text (r : Report) : String :=
  Json.ofMembers
    [("run_id", Json.ofString r.stamp.run),
     ("started_at", Json.ofString r.stamp.started),
     ("elapsed_ms", Json.ofNat r.stamp.elapsed),
     ("input", Json.ofString r.input),
     ("output", Json.ofString r.output),
     ("statements", Json.ofNat r.statements),
     ("retained", Json.ofList (r.saved.map Json.ofString)),
     ("released", Json.ofList (r.released.map Json.ofString)),
     ("transforms_applied", Json.ofNat r.actionsApplied),
     ("peak_live_buffers", Json.ofNat r.peakLive),
     ("duration_secs", Json.ofFloat r.seconds),
     ("sample_rate", Json.ofNat r.rate.toNat),
     ("channels", Json.ofNat r.channels),
     ("normalization_gain", Json.ofFloat32 r.gain),
     ("peak_db", Json.orNull Json.ofFloat32 r.peak),
     ("rms_db", Json.orNull Json.ofFloat32 r.rms),
     ("checksum", Json.ofString r.checksum)]

/-- The tree with a report written at a path. -/
def save (r : Report) (f : Files) (path : String) : Except Error Files :=
  (f.write path r.text.toUTF8.toList).mapError .ofFileFault

end Report

/-- Renders the recipe in a text from the stems of a track and writes the mix at a path. Gives the
report and the tree with the mix in it. -/
def Renderer.renderToFile (r : Renderer) (f : Files) (stamp : Stamp)
    (text input output : String) : Traced Event Error (Report × Files) := do
  Traced.tell (.renderStarted stamp.run)
  let d ← r.render text input
  let written ← Traced.ofExcept (f.exportAudio output r.settings.bitDepth.toNat d.track.buffer)
  let checksum ← Traced.ofExcept (written.checksum output)
  Traced.tell (.wrote output d.track.buffer.seconds)
  return (Report.ofRendered stamp input output d checksum, written)

end Remix
