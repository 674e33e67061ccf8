import ScriptBindings.TypeExpr.Basic
import ScriptBindings.TypeExpr.Form

/-! Type expressions read from text. Unions bind loosest; repeated members
are dropped and a union of one member is that member. A function type is one
reference, whatever it contains. -/
namespace ScriptBindings

namespace TypeExpr

open Text ScriptBindings.Bracket

/-- Why a text is no type: nothing is there, or its brackets are not
balanced. -/
inductive Fault where
  | missing
  | unbalanced (flaw : Flaw)
  deriving DecidableEq, Repr

def Fault.message : Fault → String
  | .missing => "missing type"
  | .unbalanced flaw => flaw.message

def Fault.ofBracket (fault : Bracket.Fault) : Fault :=
  .unbalanced fault.flaw

/-- An opaque type is known by its words only. -/
def opaqueType (text : List Char) : TypeExpr :=
  .reference (String.ofList (normalise text))

/-- A name is a keyword type first and a type parameter in scope second. -/
def ofPlain (generics : List String) (text : List Char) : TypeExpr :=
  if isName text then
    match Primitive.ofKeyword? (String.ofList text) with
    | some p => .primitive p
    | none =>
        if generics.contains (String.ofList text) then .genericRef (String.ofList text)
        else opaqueType text
  else
    opaqueType text

/-- The members of a union without repeats; alone, a member is no union. -/
def ofMembers (members : List TypeExpr) : Except Fault TypeExpr :=
  match members.eraseDups with
  | [] => .error .missing
  | [t] => .ok t
  | distinct => .ok (.unionOf distinct)

/-- The texts of the union members of a type that is no function type. -/
def memberTexts (text : List Char) : Except Bracket.Fault (List (List Char)) := do
  return ((← splitTop '|' text).map trim).filter (!·.isEmpty)

theorem length_memberTexts_le {text piece : List Char} {pieces : List (List Char)}
    (h : memberTexts text = .ok pieces) (member : piece ∈ pieces) :
    piece.length ≤ text.length := by
  simp only [memberTexts] at h
  cases hs : splitTop '|' text with
  | error e => simp [hs, bind, Except.bind] at h
  | ok cut =>
      simp only [hs, bind, Except.bind, pure, Except.pure, Except.ok.injEq] at h
      subst h
      obtain ⟨hm, -⟩ := List.mem_filter.1 member
      obtain ⟨raw, hr, rfl⟩ := List.mem_map.1 hm
      exact Nat.le_trans (length_trim_le raw) (splitTopFrom_length hs hr)

mutual

/-- Read a type expression. -/
def parse (generics : List String) (text : List Char) : Except Fault TypeExpr :=
  if (trim text).isEmpty then .error .missing
  else
    match hasArrow (trim text) with
    | .error fault => .error (.ofBracket fault)
    | .ok true => .ok (opaqueType (trim text))
    | .ok false =>
        match _found : memberTexts (trim text) with
        | .error fault => .error (.ofBracket fault)
        | .ok pieces =>
            match pieces.attach.mapM fun ⟨piece, _⟩ => parseMember generics piece with
            | .error fault => .error fault
            | .ok members => ofMembers members
termination_by 2 * text.length + 1
decreasing_by
  have := length_memberTexts_le _found ‹_›
  have := length_trim_le text
  omega

/-- Read one member of a union. -/
def parseMember (generics : List String) (text : List Char) : Except Fault TypeExpr :=
  match _form : Form.of (trim text) with
  | .error fault => .error (.ofBracket fault)
  | .ok (.grouped inside) => parse generics inside
  | .ok (.readonlyOf rest) => parseMember generics rest
  | .ok (.keyOf target) => (parseMember generics target).map .keyOf
  | .ok (.array element) => (parseMember generics element).map .arrayOf
  | .ok (.applied name argument) =>
      match String.ofList name with
      | "Promise" => (parse generics argument).map .promiseOf
      | "Array" | "ReadonlyArray" => (parse generics argument).map .arrayOf
      | _ => .ok (opaqueType (trim text))
  | .ok .plain => .ok (ofPlain generics (trim text))
termination_by 2 * text.length
decreasing_by
  all_goals
    have := Form.length_lt _form (List.mem_singleton.2 rfl)
    have := length_trim_le text
    omega

end

end TypeExpr

end ScriptBindings
