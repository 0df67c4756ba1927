import Remix.Execution.RuntimeError
import Remix.Files.Basic
import Remix.Plan.NamingError
import Remix.Recipe.SyntaxError
import Remix.Wave.Writer

/-!
# Errors

Everything that can end a run, with the code, the message and the hints that the user gets.
-/

namespace Remix

/-- Why a run ends without a result. -/
inductive Error where
  | badRecipe (error : Recipe.SyntaxError)
  | badNames (error : NamingError)
  | runtime (error : RuntimeError)
  | fileNotFound (path : String)
  | invalidAudio (reason : String) (cause : Option String)
  | unsupportedFormat (format : String)
  | emptyAudio
  | badSettings (reason : String)
  | inputOutput (reason : String)
  | unreadableSettings (reason : String)
  /-- A buffer that no file can hold. -/
  | unwritable (fault : Wave.Unwritable)
  deriving DecidableEq, Repr

namespace Error

def message : Error → String
  | badRecipe e => e.message
  | badNames e => e.message
  | runtime e => e.message
  | fileNotFound path => s!"File not found: {path}"
  | invalidAudio reason _ => s!"Invalid audio file: {reason}"
  | unsupportedFormat format => s!"Unsupported audio format: {format}"
  | emptyAudio => "Audio contains no samples"
  | badSettings reason => s!"Invalid configuration: {reason}"
  | inputOutput reason => s!"I/O error: {reason}"
  | unreadableSettings reason => s!"Serialization error: {reason}"
  | unwritable fault => s!"Unwritable audio: {fault.message}"

/-- A short fixed name for the kind of error. -/
def code : Error → String
  | badRecipe _ => "SYNTAX_ERROR"
  | badNames (.unknownReference _ _) => "UNKNOWN_REFERENCE"
  | badNames (.duplicateName _ _ _) => "DUPLICATE_NAME"
  | badNames (.reservedName _ _) => "RESERVED_NAME"
  | badNames .emptyOutput => "EMPTY_OUTPUT"
  | runtime (.missingStem _ _) => "MISSING_STEM"
  | runtime (.missingSink _ _) => "MISSING_SINK"
  | runtime (.transformFailed _ _ _) => "TRANSFORM_FAILED"
  | runtime (.incompatibleRate _ _ _) => "INCOMPATIBLE_SAMPLE_RATE"
  | runtime .nothingToMix => "NOTHING_TO_MIX"
  | runtime (.noRoom _) => "NO_ROOM"
  | fileNotFound _ => "FILE_NOT_FOUND"
  | invalidAudio _ _ => "INVALID_AUDIO"
  | unsupportedFormat _ => "UNSUPPORTED_FORMAT"
  | emptyAudio => "EMPTY_AUDIO"
  | badSettings _ => "CONFIG_ERROR"
  | inputOutput _ => "IO_ERROR"
  | unreadableSettings _ => "SERIALIZATION_ERROR"
  | unwritable _ => "UNWRITABLE_AUDIO"

/-- Whether an error comes from the recipe and not from the audio. -/
def isRecipeError : Error → Bool
  | badRecipe _ | badNames _ => true
  | _ => false

/-- Whether a run breaks off at an error, before there is anything to tell the user. -/
def isFatal : Error → Bool
  | runtime (.transformFailed _ _ (.overturned _ _)) | runtime (.noRoom _) | unwritable _ => true
  | _ => false

/-- What the user may do about an error. -/
def hints : Error → List String
  | badRecipe _ =>
    ["Every statement has the form: source -> action ... -> sink;",
     "Only the last step of a statement may be a sink",
     "Run 'stemweave-cli actions' to list valid actions"]
  | badNames (.unknownReference _ _) =>
    ["Sources must be a stem (bass, drums, other, piano, vocals)",
     "Or a sink defined by an earlier statement"]
  | badNames (.duplicateName _ _ _) => ["Give each sink a unique name"]
  | badNames (.reservedName _ _) => ["Stem names cannot be reused as sink names"]
  | badNames .emptyOutput =>
    ["Wrap at least one sink in save(...) to include it in the output"]
  | runtime (.missingStem _ _) =>
    ["Check the stems directory contains <stem>.wav for every stem used",
     "2- and 4-stem separations do not produce piano"]
  | runtime (.incompatibleRate _ _ _) => ["Re-export all stems at the same sample rate"]
  | invalidAudio _ _ =>
    ["Try converting the file to WAV format first",
     "The file may be corrupted - try re-exporting from source"]
  | unsupportedFormat _ =>
    ["Only mono or stereo 8/16/24/32-bit WAV files are supported"]
  | _ => []

/-- The message of what an error was caused by. -/
def cause? : Error → Option String
  | runtime (.transformFailed _ _ cause) => some cause.message
  | invalidAudio _ cause => cause
  | inputOutput reason | unreadableSettings reason => some reason
  | _ => none

/-- The message of an error followed by that of its cause. -/
def fullMessage (e : Error) : String :=
  match e.cause? with
  | some cause => s!"{e.message}: {cause}"
  | none => e.message

/-- The exit code of a command that an error ends: 2 for a recipe that is wrong, 3 for a run that
fails, and 1 for anything else. -/
def exitCode : Error → Nat
  | badRecipe _ | badNames _ => 2
  | runtime _ => 3
  | _ => 1

/-- A path that cannot be read or written. -/
def ofFileFault (fault : FileFault) : Error := .inputOutput fault.message

/-- A buffer that no file can hold. If its channels cannot be counted in a file, that is found only
when the file is written. -/
def ofUnwritable : Wave.Unwritable → Error
  | .partialFrame => .inputOutput Wave.Unwritable.partialFrame.message
  | fault => .unwritable fault

/-- A fault of a wave file, told of what was tried with it. -/
def ofWaveFault (attempt : String) (fault : Wave.Fault) : Error :=
  .invalidAudio s!"{attempt}: {fault.message}" (some fault.message)

/-- A buffer that cannot be built from samples. A wrong number of channels is a format that is not
supported, anything else is a fault of the samples. -/
def ofLayoutFault : LayoutFault → Error
  | .channelCount n => .unsupportedFormat (LayoutFault.channelCount n).message
  | fault => .invalidAudio fault.message none

end Error

end Remix
