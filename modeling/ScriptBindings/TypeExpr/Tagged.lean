import ScriptBindings.Data.Basic
import ScriptBindings.TypeExpr.Basic

/-! Type expressions as data: a record with the tag `kind` and the content
`of`. Reading takes the two fields in any order among others, and also a
list of tag and content, whose tag must be a text. -/
namespace ScriptBindings.TypeExpr

mutual

def toData : TypeExpr → Data
  | .primitive p => tagged "primitive" (.text p.keyword)
  | .arrayOf element => tagged "array_of" element.toData
  | .unionOf members => tagged "union_of" (.list (toDataAll members))
  | .promiseOf result => tagged "promise_of" result.toData
  | .keyOf target => tagged "key_of" target.toData
  | .reference text => tagged "reference" (.text text)
  | .genericRef name => tagged "generic_param_ref" (.text name)
where
  tagged (kind : String) (content : Data) : Data :=
    .record [("kind", .text kind), ("of", content)]

def toDataAll : List TypeExpr → List Data
  | [] => []
  | t :: rest => t.toData :: toDataAll rest

end

/-- An enumeration value: its name, or a record with the name as its only
key and nothing under it. -/
def enumName? : Data → Option String
  | .text name => some name
  | .record [(name, .null)] => some name
  | _ => none

/-- The type with a tag and a content, where the content can also be read as
a type or as a list of types. -/
def build? (kind : String) (content : Data) (asType : Unit → Option TypeExpr)
    (asMembers : Unit → Option (List TypeExpr)) : Option TypeExpr :=
  match kind with
  | "primitive" => ((enumName? content).bind Primitive.ofKeyword?).map .primitive
  | "array_of" => (asType ()).map .arrayOf
  | "union_of" => (asMembers ()).map .unionOf
  | "promise_of" => (asType ()).map .promiseOf
  | "key_of" => (asType ()).map .keyOf
  | "reference" => content.text?.map .reference
  | "generic_param_ref" => content.text?.map .genericRef
  | _ => none

mutual

def ofData? : Data → Option TypeExpr
  | .record fields => do
      let kind ← (fields.lookup "kind").bind enumName?
      build? kind (← fields.lookup "of") (fun _ => contentType? fields)
        (fun _ => contentMembers? fields)
  | .list [kind, content] => do
      build? (← kind.text?) content (fun _ => ofData? content) (fun _ => members? content)
  | _ => none

/-- The content of a record as a type. -/
def contentType? : List (String × Data) → Option TypeExpr
  | [] => none
  | (key, d) :: rest => if key == "of" then ofData? d else contentType? rest

/-- The content of a record as a list of types. -/
def contentMembers? : List (String × Data) → Option (List TypeExpr)
  | [] => none
  | (key, d) :: rest => if key == "of" then members? d else contentMembers? rest

def members? : Data → Option (List TypeExpr)
  | .list items => ofDataAll? items
  | _ => none

def ofDataAll? : List Data → Option (List TypeExpr)
  | [] => some []
  | d :: rest => do return (← ofData? d) :: (← ofDataAll? rest)

end

end ScriptBindings.TypeExpr
