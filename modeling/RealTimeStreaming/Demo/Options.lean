import RealTimeStreaming.Demo.Media

/-! The command line of the demo server: settings by name, each with a value and each at
most once. -/

namespace RealTimeStreaming.Demo

/-- The settings of the command line. -/
inductive Setting where
  | bind
  | audio
  | video
  | frameRate
  | samplesPerPacket
deriving DecidableEq, Repr

namespace Setting

def all : List Setting := [.bind, .audio, .video, .frameRate, .samplesPerPacket]

def name : Setting → String
  | .bind => "--bind"
  | .audio => "--audio"
  | .video => "--video"
  | .frameRate => "--fps"
  | .samplesPerPacket => "--samples-per-packet"

/-- The setting with a place for its value, as messages show it. -/
def usage : Setting → String
  | .bind => "--bind <BIND>"
  | .audio => "--audio <AUDIO>"
  | .video => "--video <VIDEO>"
  | .frameRate => "--fps <FPS>"
  | .samplesPerPacket => "--samples-per-packet <SAMPLES_PER_PACKET>"

def ofName? (name : String) : Option Setting :=
  if name = "-b" then some .bind else all.find? (·.name == name)

end Setting

structure Options where
  bind : String := "0.0.0.0:8554"
  audio : Option String := none
  video : Option String := none
  frameRate : UInt32 := 25
  samplesPerPacket : UInt64 := 160
deriving DecidableEq, Repr

/-- Why a command line is refused. -/
inductive UsageError where
  | unexpected (argument : String)
  | repeated (setting : Setting)
  | valueMissing (setting : Setting)
  | invalidValue (setting : Setting) (value reason : String)
deriving DecidableEq, Repr

namespace UsageError

def summary : UsageError → String
  | .unexpected argument => s!"unexpected argument '{argument}' found"
  | .repeated setting => s!"the argument '{setting.usage}' cannot be used multiple times"
  | .valueMissing setting => s!"a value is required for '{setting.usage}' but none was supplied"
  | .invalidValue setting value reason =>
    s!"invalid value '{value}' for '{setting.usage}': {reason}"

/-- Whether the form of the command line is worth showing again. -/
def showsUsage : UsageError → Bool
  | .unexpected _ | .repeated _ => true
  | _ => false

def message (e : UsageError) : String :=
  s!"error: {e.summary}\n\n" ++
  (if e.showsUsage then "Usage: rtsp-server [OPTIONS]\n\n" else "") ++
  "For more information, try '--help'.\n"

end UsageError

def helpText : String :=
  "Demo RTSP server streaming G.711 audio and H.264 video files\n\n" ++
  "Usage: rtsp-server [OPTIONS]\n\n" ++
  "Options:\n" ++
  "  -b, --bind <BIND>                              Bind address (host:port) [default: 0.0.0.0:8554]\n" ++
  "      --audio <AUDIO>                            G.711 µ-law file, 8 kHz mono\n" ++
  "      --video <VIDEO>                            H.264 Annex B file with access unit delimiters\n" ++
  "      --fps <FPS>                                Video frame rate [default: 25]\n" ++
  "      --samples-per-packet <SAMPLES_PER_PACKET>  Audio samples per RTP packet [default: 160]\n" ++
  "  -h, --help                                     Print help\n"

/-- A number from 1 to `max`; the reason if the text is none. -/
def readPositive (max : Nat) (text : String) : Except String Nat :=
  match Text.readNat max text.toList with
  | .error e => .error e.message
  | .ok 0 => .error "number would be zero for non-zero type"
  | .ok n => .ok n

namespace Options

/-- Takes the value of one setting in. -/
def set (o : Options) (setting : Setting) (value : String) : Except UsageError Options :=
  match setting with
  | .bind => .ok { o with bind := value }
  | .audio => .ok { o with audio := some value }
  | .video => .ok { o with video := some value }
  | .frameRate =>
    match readPositive (UInt32.size - 1) value with
    | .ok n => .ok { o with frameRate := n.toUInt32 }
    | .error reason => .error (.invalidValue setting value reason)
  | .samplesPerPacket =>
    match readPositive (UInt64.size - 1) value with
    | .ok n => .ok { o with samplesPerPacket := n.toUInt64 }
    | .error reason => .error (.invalidValue setting value reason)

end Options

/-- What a command line asks for. -/
inductive Command where
  | help
  | serve (options : Options)
deriving DecidableEq, Repr

namespace Command

/-- A value may stand in an argument of its own, unless it looks like a setting. -/
def isValue (argument : String) : Bool :=
  argument = "-" || !argument.startsWith "-"

/-- Name and value of an argument that holds both, with an equals sign between. -/
def split (argument : String) : String × Option String :=
  match Text.cutAt '=' argument.toList with
  | some (name, value) => (String.ofList name, some (String.ofList value))
  | none => (argument, none)

/-- Reads on; `given` are the settings that have a value. -/
def readFrom (given : List Setting) (o : Options) : List String → Except UsageError Command
  | [] => .ok (.serve o)
  | argument :: rest =>
    if argument = "--help" ∨ argument = "-h" then .ok .help
    else
      match Setting.ofName? (split argument).1 with
      | none => .error (.unexpected argument)
      | some setting =>
        if setting ∈ given then .error (.repeated setting)
        else
          match (split argument).2, rest with
          | some value, rest => do readFrom (setting :: given) (← o.set setting value) rest
          | none, [] => .error (.valueMissing setting)
          | none, value :: rest =>
            if isValue value then do readFrom (setting :: given) (← o.set setting value) rest
            else .error (.valueMissing setting)

/-- Reads a command line, its program name left out. -/
def read (arguments : List String) : Except UsageError Command :=
  readFrom [] {} arguments

end Command

end RealTimeStreaming.Demo
