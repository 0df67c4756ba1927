import Remix.Transform.PitchShift
import Remix.Transform.TimeShift

/-!
# Transform banks

A bank binds actions to the transforms that carry them out.
-/

namespace Remix

inductive Transform where
  | time (shift : TimeShift)
  | pitch (shift : PitchShift)

namespace Transform

def apply : Transform → Buffer → Except TransformError Buffer
  | time t => t.apply
  | pitch p => p.apply

/-- A short fixed name for the kind of transform. -/
def kind : Transform → String
  | time _ => "time_shift"
  | pitch _ => "pitch_shift"

/-- A whole number with its sign in front. -/
def signedText (n : Int) : String := if n < 0 then toString n else s!"+{n}"

/-- What the transform does, for the user. -/
def describe : Transform → String
  | time t => s!"Time shift ({signedText t.offset} samples)"
  | pitch p =>
    s!"Pitch shift ({signedFloatText p.steps}/{floatText p.stepsPerOctave} octave)"

end Transform

/-- Transforms for some of the actions. -/
structure Bank where
  get? : Action → Option Transform

namespace Bank

def empty : Bank := ⟨fun _ => none⟩

/-- Binds an action; an earlier binding is forgotten. -/
def bind (bank : Bank) (action : Action) (t : Transform) : Bank :=
  ⟨fun a => if a = action then some t else bank.get? a⟩

/-- The bound actions, in the order of actions. -/
def actions (bank : Bank) : List Action := Action.all.filter fun a => (bank.get? a).isSome

/-- The bank that binds every action, with time shifts and windows of a given size. -/
def standard (shift window : Nat) : Bank :=
  ⟨fun
    | .early => some (.time (.early shift))
    | .late => some (.time (.late shift))
    | .flat => some (.pitch (.semitones (-1) window))
    | .sharp => some (.pitch (.semitones 1 window))
    | .halfFlat => some (.pitch (.quarterTones (-1) window))
    | .halfSharp => some (.pitch (.quarterTones 1 window))
    | .octaveUp => some (.pitch (.semitones 12 window))
    | .octaveDown => some (.pitch (.semitones (-12) window))⟩

/-- Carries out an action. -/
def apply (bank : Bank) : Transforms := fun action b =>
  match bank.get? action with
  | some t => t.apply b
  | none => .error (.failed s!"no transform bound to '{action.keyword}'")

/-- What the transform bound to an action does. -/
def describe? (bank : Bank) (action : Action) : Option String :=
  (bank.get? action).map (·.describe)

end Bank

end Remix
