import ScriptBindings.Name.Casing
import ScriptBindings.Text.Blank

/-! Patterns of generated names. A pattern is literal text with placeholders
in braces. Each kind of name offers its own placeholders, and any other is
refused when the pattern is compiled, so that rendering cannot fail. -/
namespace ScriptBindings

/-- What a name is generated for. -/
inductive NameKind where
  | interface
  | runtimeClass
  | module
  | preload
  | method
  | parameter
  deriving DecidableEq, Repr

inductive Placeholder where
  | name
  | module
  | function
  | action
  deriving DecidableEq, Repr

namespace Placeholder

def token : Placeholder → String
  | .name => "name"
  | .module => "module"
  | .function => "function"
  | .action => "action"

def all : List Placeholder :=
  [.name, .module, .function, .action]

def ofToken? (text : List Char) : Option Placeholder :=
  all.find? (·.token.toList == text)

end Placeholder

namespace NameKind

def label : NameKind → String
  | .interface => "interface"
  | .runtimeClass => "runtime_class"
  | .module => "module"
  | .preload => "preload"
  | .method => "method"
  | .parameter => "parameter"

def all : List NameKind :=
  [.interface, .runtimeClass, .module, .preload, .method, .parameter]

def ofLabel? (text : String) : Option NameKind :=
  all.find? (·.label == text)

/-- Whether names of this kind can stand for the placeholder. -/
def accepts : NameKind → Placeholder → Bool
  | .method, _ => true
  | _, .name => true
  | .module, .module | .preload, .module => true
  | _, _ => false

end NameKind

/-- A pattern and the casing of the values put into it, as configured. -/
structure PatternSpec where
  pattern : String
  casing : Casing
  deriving DecidableEq, Repr

/-- The values a pattern may use. -/
structure NameContext where
  name : String
  module : String
  function : String
  action : String
  deriving DecidableEq, Repr

namespace NameContext

/-- A context with a name only. -/
def ofName (name : String) : NameContext :=
  ⟨name, "", "", ""⟩

def value (context : NameContext) : Placeholder → String
  | .name => context.name
  | .module => context.module
  | .function => context.function
  | .action => context.action

end NameContext

namespace NamePattern

inductive Segment where
  | literal (text : List Char)
  | placeholder (which : Placeholder)
  deriving DecidableEq, Repr

/-- Why a pattern is refused. -/
inductive Fault where
  | empty
  | unmatchedBrace
  | unterminated
  | unknownPlaceholder (token : String)
  deriving DecidableEq, Repr

def Fault.message (kind : NameKind) (pattern : String) : Fault → String
  | .empty => kind.label ++ " name pattern is empty"
  | .unmatchedBrace =>
      "unmatched '\x7d' in " ++ kind.label ++ " name pattern '" ++ pattern ++ "'"
  | .unterminated =>
      "unterminated placeholder in " ++ kind.label ++ " name pattern '" ++ pattern ++ "'"
  | .unknownPlaceholder token =>
      "unknown placeholder '\x7b" ++ token ++ "\x7d' in " ++ kind.label ++ " name pattern '" ++
        pattern ++ "'"

def isBrace (c : Char) : Bool :=
  c == '\x7b' || c == '\x7d'

/-- The segments of a pattern text; literal runs are as long as possible. -/
def readSegments (kind : NameKind) : List Char → Except Fault (List Segment)
  | [] => .ok []
  | '\x7d' :: _ => .error .unmatchedBrace
  | '\x7b' :: rest =>
      match _behind : rest.dropWhile (· != '\x7d') with
      | [] => .error .unterminated
      | _ :: after =>
          let token := rest.takeWhile (· != '\x7d')
          match Placeholder.ofToken? token with
          | some which =>
              if kind.accepts which then do
                return .placeholder which :: (← readSegments kind after)
              else
                .error (.unknownPlaceholder (String.ofList token))
          | none => .error (.unknownPlaceholder (String.ofList token))
  | c :: rest => do
      let literal := c :: rest.takeWhile (!isBrace ·)
      return .literal literal :: (← readSegments kind (rest.dropWhile (!isBrace ·)))
termination_by text => text.length
decreasing_by
  · have := Text.length_dropWhile_le (· != '\x7d') rest
    rw [_behind] at this
    simp only [List.length_cons] at *
    omega
  · have := Text.length_dropWhile_le (!isBrace ·) rest
    simp only [List.length_cons]
    omega

end NamePattern

/-- A compiled pattern. -/
structure NamePattern where
  segments : List NamePattern.Segment
  casing : Casing
  deriving DecidableEq, Repr

namespace NamePattern

def compile (kind : NameKind) (spec : PatternSpec) : Except Fault NamePattern := do
  if (Text.trim spec.pattern.toList).isEmpty then throw .empty
  return ⟨← readSegments kind spec.pattern.toList, spec.casing⟩

def usesAction (p : NamePattern) : Bool :=
  p.segments.contains (.placeholder .action)

/-- Literal text stays as it is and every placeholder becomes its value in
the casing of the pattern. Values are not searched for placeholders. -/
def renderSegment (casing : Casing) (context : NameContext) : Segment → List Char
  | .literal text => text
  | .placeholder which => casing.applyChars (context.value which).toList

def render (p : NamePattern) (context : NameContext) : String :=
  String.ofList (p.segments.flatMap (renderSegment p.casing context))

end NamePattern

end ScriptBindings
