import Mathlib.Data.List.Forall2
import ScriptBindings.Proofs.Data.JsonRoundTrip
import ScriptBindings.TypeExpr.Tagged

/-! Types as data, and back. A tag and a content may be written as a record
in either order of its two fields, or as a list of the two. The reader takes
them alike at every depth, so that a type is read back whatever mixture of
the forms it was written in. -/
namespace ScriptBindings.TypeExpr

/-- A tag and its content, in one of the forms that are read alike. -/
inductive Tagged (tag : String) (content : Data) : Data → Prop where
  | record : Tagged tag content (.record [("kind", .text tag), ("of", content)])
  | contentFirst : Tagged tag content (.record [("of", content), ("kind", .text tag)])
  | list : Tagged tag content (.list [.text tag, content])

/-- The data stand for the type. Each part of it may be written in another
form. -/
inductive EncodedAs : TypeExpr → Data → Prop where
  | primitive {p : Primitive} {d : Data} (hForm : Tagged "primitive" (.text p.keyword) d) :
      EncodedAs (.primitive p) d
  | arrayOf {element : TypeExpr} {content d : Data} (hElement : EncodedAs element content)
      (hForm : Tagged "array_of" content d) : EncodedAs (.arrayOf element) d
  | unionOf {members : List TypeExpr} {items : List Data} {d : Data}
      (hMembers : List.Forall₂ EncodedAs members items)
      (hForm : Tagged "union_of" (.list items) d) : EncodedAs (.unionOf members) d
  | promiseOf {result : TypeExpr} {content d : Data} (hResult : EncodedAs result content)
      (hForm : Tagged "promise_of" content d) : EncodedAs (.promiseOf result) d
  | keyOf {target : TypeExpr} {content d : Data} (hTarget : EncodedAs target content)
      (hForm : Tagged "key_of" content d) : EncodedAs (.keyOf target) d
  | reference {text : String} {d : Data} (hForm : Tagged "reference" (.text text) d) :
      EncodedAs (.reference text) d
  | genericRef {name : String} {d : Data} (hForm : Tagged "generic_param_ref" (.text name) d) :
      EncodedAs (.genericRef name) d

variable {tag : String} {content d : Data} {items : List Data} {members : List TypeExpr}
  {t : TypeExpr}

/-! ### Writing -/

theorem toDataAll_eq_map (members : List TypeExpr) : toDataAll members = members.map toData := by
  induction members with
  | nil => rfl
  | cons t rest ih => rw [toDataAll, ih, List.map_cons]

/-- The writer puts every tag into a record, in front of the content. -/
theorem encodedAs_toData (t : TypeExpr) : t.EncodedAs t.toData := by
  induction t using TypeExpr.induction with
  | primitive p => exact .primitive .record
  | arrayOf element ih => exact .arrayOf ih .record
  | promiseOf result ih => exact .promiseOf ih .record
  | keyOf target ih => exact .keyOf ih .record
  | reference text => exact .reference .record
  | genericRef name => exact .genericRef .record
  | unionOf members ih =>
      have hMembers : List.Forall₂ EncodedAs members (toDataAll members) := by
        rw [toDataAll_eq_map, List.forall₂_map_right_iff]
        exact List.forall₂_same.mpr ih
      exact .unionOf hMembers .record

/-- A tag and a content without numbers have none between them. -/
theorem Tagged.numberless (h : Tagged tag content d) (hContent : Json.Numberless content) :
    Json.Numberless d := by
  cases h with
  | record => exact .record (by simpa using ⟨.text tag, hContent⟩)
  | contentFirst => exact .record (by simpa using ⟨hContent, .text tag⟩)
  | list => exact .list (by simpa using ⟨.text tag, hContent⟩)

/-- No encoding of a type has a number in it. -/
theorem numberless_of_encodedAs (h : t.EncodedAs d) : Json.Numberless d := by
  induction t using TypeExpr.induction generalizing d with
  | primitive p =>
      cases h with
      | primitive hForm => exact hForm.numberless (.text _)
  | arrayOf element ih =>
      cases h with
      | arrayOf hElement hForm => exact hForm.numberless (ih hElement)
  | promiseOf result ih =>
      cases h with
      | promiseOf hResult hForm => exact hForm.numberless (ih hResult)
  | keyOf target ih =>
      cases h with
      | keyOf hTarget hForm => exact hForm.numberless (ih hTarget)
  | reference text =>
      cases h with
      | reference hForm => exact hForm.numberless (.text _)
  | genericRef name =>
      cases h with
      | genericRef hForm => exact hForm.numberless (.text _)
  | unionOf members ih =>
      cases h with
      | @unionOf _ items _ hMembers hForm =>
          have hItems : ∀ d ∈ items, Json.Numberless d := by
            clear hForm
            induction hMembers with
            | nil => exact List.forall_mem_nil _
            | cons hFirst _ ihRest =>
                rw [List.forall_mem_cons] at ih ⊢
                exact ⟨ih.1 hFirst, ihRest ih.2⟩
          exact hForm.numberless (.list hItems)

/-! ### Reading -/

/-- In every form the type is built from the tag and from what the content
is read as. -/
theorem ofData?_tagged (h : Tagged tag content d) :
    ofData? d = build? tag content (fun _ => ofData? content) fun _ => members? content := by
  cases h with
  | record => rfl
  | contentFirst => rfl
  | list => rfl

/-- Members are decoded one by one, each in the layout that it has. -/
theorem ofDataAll?_eq_some (h : List.Forall₂ (fun t d => ofData? d = some t) members items) :
    ofDataAll? items = some members := by
  induction h with
  | nil => rfl
  | cons hFirst _ ih =>
      rw [ofDataAll?, hFirst, ih]
      rfl

/-- Every layout of a type is decoded to the type, by induction on the
encoding. -/
theorem ofData?_of_encodedAs (h : t.EncodedAs d) : ofData? d = some t := by
  induction t using TypeExpr.induction generalizing d with
  | primitive p =>
      cases h with
      | primitive hForm =>
          rw [ofData?_tagged hForm, build?, enumName?, Option.bind_some,
            Primitive.ofKeyword?_keyword, Option.map_some]
  | arrayOf element ih =>
      cases h with
      | arrayOf hElement hForm => rw [ofData?_tagged hForm, build?, ih hElement, Option.map_some]
  | promiseOf result ih =>
      cases h with
      | promiseOf hResult hForm => rw [ofData?_tagged hForm, build?, ih hResult, Option.map_some]
  | keyOf target ih =>
      cases h with
      | keyOf hTarget hForm => rw [ofData?_tagged hForm, build?, ih hTarget, Option.map_some]
  | reference text =>
      cases h with
      | reference hForm =>
          rw [ofData?_tagged hForm]
          rfl
  | genericRef name =>
      cases h with
      | genericRef hForm =>
          rw [ofData?_tagged hForm]
          rfl
  | unionOf members ih =>
      cases h with
      | @unionOf _ items _ hMembers hForm =>
          have hAll : ∀ t ∈ members, ∀ d, t.EncodedAs d → ofData? d = some t :=
            fun t ht d hEncoded => ih t ht hEncoded
          have hRead : ofDataAll? items = some members := by
            apply ofDataAll?_eq_some
            apply ((List.forall₂_and_left members items).mpr ⟨hAll, hMembers⟩).imp
            intro t d h
            exact h.1 d h.2
          rw [ofData?_tagged hForm, build?, members?, hRead, Option.map_some]

/-- Written as JSON, on one line or on several, an encoding is read back as
the type. -/
theorem parse?_bind_ofData?_of_encodedAs (h : t.EncodedAs d) :
    (Json.parse? (Json.compact d)).bind ofData? = some t ∧
      (Json.parse? (Json.pretty d)).bind ofData? = some t := by
  have hNumbers := numberless_of_encodedAs h
  rw [Json.parse?_compact hNumbers, Json.parse?_pretty hNumbers, Option.bind_some]
  exact ⟨ofData?_of_encodedAs h, ofData?_of_encodedAs h⟩

/-- A type is read back from the data it is written as, and from every other
encoding of it, whatever layouts are mixed at whatever depth. -/
theorem ofData?_toData (t : TypeExpr) :
    ofData? t.toData = some t ∧ ∀ d, t.EncodedAs d → ofData? d = some t :=
  ⟨ofData?_of_encodedAs (encodedAs_toData t), fun _ h => ofData?_of_encodedAs h⟩

/-- All three forms in one type: `Promise<(keyof T | null)[]>`. -/
theorem ofData?_toData_of_mixture :
    ofData? (.record [("of", .list [.text "array_of", .record
        [("kind", .text "union_of"), ("of", .list
          [.record [("of", .list [.text "generic_param_ref", .text "T"]), ("kind", .text "key_of")],
            .list [.text "primitive", .text "null"]])]]), ("kind", .text "promise_of")]) =
      some (.promiseOf (.arrayOf (.unionOf [.keyOf (.genericRef "T"), .primitive .null]))) := by
  apply (ofData?_toData _).2
  have hKeys : EncodedAs (.keyOf (.genericRef "T"))
      (.record [("of", .list [.text "generic_param_ref", .text "T"]), ("kind", .text "key_of")]) :=
    .keyOf (.genericRef .list) .contentFirst
  have hNull : EncodedAs (.primitive .null) (.list [.text "primitive", .text "null"]) :=
    .primitive .list
  have hUnion := EncodedAs.unionOf (.cons hKeys (.cons hNull .nil)) .record
  exact .promiseOf (.arrayOf hUnion .list) .contentFirst

end ScriptBindings.TypeExpr
