import BlockRuntime.Config.Document
import BlockRuntime.Text.Yaml.Parser

namespace BlockRuntime

inductive LoadError where
  | unreadable (path : String)
  | malformed
  deriving DecidableEq

def LoadError.message : LoadError → String
  | unreadable path => "Could not read config file " ++ path
  | malformed => "Could not parse config file"

def textOfUtf8? (bytes : Bytes) : Option String := String.fromUTF8? ⟨bytes.toArray⟩

/-- Whether the parts of a path lead to the null device from the root, or from the directory of the
devices. -/
def leadsToNullDevice : (amongDevices : Bool) → List String → Bool
  | true, ["null"] => true
  | amongDevices, part :: rest =>
    if part = "" || part = "." then leadsToNullDevice amongDevices rest
    else if part = ".." then leadsToNullDevice false rest
    else !amongDevices && part = "dev" && leadsToNullDevice true rest
  | _, [] => false

def unwritten? (path : String) : Option Bytes :=
  match path.splitOn "/" with
  | "" :: parts => if leadsToNullDevice false parts then some [] else none
  | _ => none

namespace Config

def ofYamlText? (text : String) : Option Config :=
  (Yaml.parse? text).bind (Config.ofDocument? Yaml.form)

def ofYamlText (text : String) : Except LoadError Config :=
  match ofYamlText? text with
  | some config => .ok config
  | none => .error .malformed

def ofFile (path : String) (contents : Option Bytes) : Except LoadError Config :=
  match (contents <|> unwritten? path).bind textOfUtf8? with
  | some text => ofYamlText text
  | none => .error (.unreadable path)

end Config

end BlockRuntime
