import ApiRoutes.Json.Fault
import ApiRoutes.Yaml.Fault
import ApiRoutes.Spec.Fault
import ApiRoutes.Script.Quoted
import ApiRoutes.Text.Display
/-!
# Failures

Every way in which the library can refuse its input, by cause.  `Failure.message?` gives the wording
of those that have one.
-/
namespace ApiRoutes

/-- Why an existing script or manifest cannot be used. -/
inductive SourceFault where
  | malformed
  | badEscape (fault : Script.EscapeFault)
  | exportIsNoFunction
  | manifest (cause : Json.Cause)
  deriving DecidableEq, Repr

def SourceFault.message : SourceFault → String
  | .malformed => "syntax error"
  | .badEscape fault => "bad string escape: " ++ fault.message
  | .exportIsNoFunction => "default export is not a function declaration"
  | .manifest cause => cause.message

/-- A script or manifest that cannot be used: what is wrong, and where when that is known. -/
structure Malformed where
  path : Option Text
  line : Option Nat
  fault : SourceFault
  deriving DecidableEq, Repr

/-- The wording: place, line, fault. -/
def Malformed.message (m : Malformed) : Text :=
  let place : Text := match m.path with
    | some (c :: p) => c :: p
    | _ => "<source>"
  let line : Text := match m.line with
    | some n => ":" ++ Text.ofNat n
    | none => []
  place ++ line ++ ": " ++ m.fault.message

/-- Why the file system refuses an operation. -/
inductive SystemFault where
  | notFound
  | exists
  | notADirectory
  | isADirectory
  | nameTooLong
  /-- The place is one that the system needs as it is. -/
  | busy
  | denied
  | noSpace
  deriving DecidableEq, Repr

namespace SystemFault

def message : SystemFault → String
  | .notFound => "No such file or directory"
  | .exists => "File exists"
  | .notADirectory => "Not a directory"
  | .isADirectory => "Is a directory"
  | .nameTooLong => "File name too long"
  | .busy => "Device or resource busy"
  | .denied => "Permission denied"
  | .noSpace => "No space left on device"

def code : SystemFault → Nat
  | .notFound => 2
  | .exists => 17
  | .notADirectory => 20
  | .isADirectory => 21
  | .nameTooLong => 36
  | .busy => 16
  | .denied => 13
  | .noSpace => 28

end SystemFault

/-- A value that breaks the code that was to use it. -/
inductive Misuse where
  /-- A value is gone through as a list and is none. -/
  | notIterable
  /-- A value is taken for a mapping and has not the operations of one. -/
  | notAMapping
  /-- A list does not hold pairs that make up a mapping. -/
  | notPairs
  /-- A value that changes cannot be the key of a mapping. -/
  | notAKey
  /-- Bytes are not UTF-8. -/
  | undecodable
  /-- A text with surrogates is to be written as UTF-8. -/
  | unencodable
  /-- A file name that no file can have. -/
  | nullInPath
  deriving DecidableEq, Repr

/-- Every way to fail. -/
inductive Failure where
  | malformed (m : Malformed)
  | unsupportedLocation (location name : Text)
  | notAMappingAtTop (origin : Text)
  /-- A document does not fit a model; path items are checked without an origin. -/
  | invalidDocument (origin : Option Text) (misfit : Spec.Misfit)
  | dotSegments (path : Text)
  | misfit (misfit : Spec.Misfit)
  /-- A document that is not YAML. -/
  | notYaml (source : Text) (fault : Yaml.Fault)
  /-- A document that cannot be read from the file system. -/
  | unreadable (source : Text) (fault : SystemFault)
  | urlSource (source : Text)
  /-- A generated file that would be broken. -/
  | brokenOutput (rel reason : Text)
  /-- A generated module that would be broken. -/
  | brokenModule (reason : Text)
  | yaml (fault : Yaml.Fault)
  | json (fault : Json.Fault)
  | system (fault : SystemFault) (path : Text)
  | escape (fault : Script.EscapeFault)
  | noLiteral (kind : String)
  | noSpelling (kind : String)
  | noStatement (kind : String)
  | noExpression (kind : String)
  | noAccessor (location : Text)
  | unknownKind (kind : Text)
  | misuse (misuse : Misuse)
  deriving DecidableEq, Repr

namespace Failure

def message? : Failure → Option Text
  | .malformed m => some m.message
  | .unsupportedLocation location name =>
    some ("parameter " ++ name.display ++ ": location " ++ location.display ++ " is not supported")
  | .notAMappingAtTop origin => some (origin ++ ": expected a mapping at the top level")
  | .invalidDocument none m => some m.headline
  | .invalidDocument (some origin) m => some (origin ++ ": " ++ m.headline)
  | .dotSegments path =>
    some ("endpoint " ++ path.display ++ ": dot segments are not allowed in a route path")
  | .misfit m => some m.headline
  | .notYaml source fault => some (source ++ ": not valid YAML/JSON: " ++ fault.headline)
  | .unreadable source fault => some (source ++ ": " ++ fault.message)
  | .urlSource source =>
    some (source ++ ": loading an API document from a URL is not supported")
  | .brokenOutput rel reason => some (rel ++ ": " ++ reason)
  | .brokenModule reason => some ("generated module does not parse: " ++ reason)
  | .system fault _ => some fault.message
  | .noLiteral kind => some ("cannot build a literal from " ++ kind)
  | .noSpelling kind => some ("no literal spelling for " ++ kind)
  | .noStatement kind => some ("cannot print " ++ kind ++ " as a statement")
  | .noExpression kind => some ("cannot print " ++ kind ++ " as an expression")
  | .noAccessor location => some ("no accessor for parameter location " ++ location.display)
  | .unknownKind kind => some ("unknown declaration kind " ++ kind.display)
  | .yaml _ | .json _ | .escape _ | .misuse _ => none

/-- Is the failure one that the input explains?  Others come from the system, or from values that
nobody expects. -/
def isExpected : Failure → Bool
  | .malformed _ | .unsupportedLocation .. | .notAMappingAtTop _ | .invalidDocument ..
  | .dotSegments _ | .notYaml .. | .unreadable .. | .urlSource _ | .brokenOutput ..
  | .brokenModule _ => true
  | _ => false

end Failure

abbrev Outcome := Except Failure

end ApiRoutes
