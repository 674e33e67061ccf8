import ScriptBindings.Proofs.Binding.Agreement
import ScriptBindings.Proofs.Binding.HostNames
import ScriptBindings.Proofs.Declaration.Urls
import ScriptBindings.Proofs.Text.HostText

/-! The string literals of the generated calls. A module is called by its
URL and a function by its declared name, both put in quotes as they are. A
name denotes itself there, and so does the URL of a path without quotes and
line ends. -/
namespace ScriptBindings

open HostText

/-- A text between quotes. -/
def quote (text : String) : String :=
  "\"" ++ text ++ "\""

def callText (callee : String) (arguments : List String) : String :=
  callee ++ "(" ++ ", ".intercalate arguments ++ ")"

theorem toList_quote (text : String) : (quote text).toList = quoted text.toList := by
  rw [quote, String.toList_append, String.toList_append]
  rfl

theorem callText_singleton (callee argument : String) :
    callText callee [argument] = callee ++ "(" ++ argument ++ ")" := by
  rw [callText, String.intercalate_singleton]

namespace Generator

variable (g : Generator) (m : ScriptModule) (f : Signature) (flavour : Flavour)

/-- The helper that carries out a method, with its type argument. -/
def helperText : String :=
  flavour.helper ++ "<" ++ (g.method m f flavour).helperResult ++ ">"

/-- What stands behind the module and the function in the call of a
helper. -/
def forwardedArguments : List String :=
  (if flavour.isCancellable then [(g.method m f flavour).token] else []) ++ g.parameterNames f

/-- The calls in the members of a module: the preload passes its URL, and
each method its URL and the name of the function. -/
structure PassesQuoted : Prop where
  preload : (g.providedPreload m).body = .beside (callText "GetOrLoadModule" [quote m.url])
  methods : ∀ f ∈ m.functions, ∀ flavour ∈ g.flavoursFor f,
    (g.providedMethod m f flavour).body =
      .below ((if g.isAwaited f flavour then "await " else "") ++
        callText (g.helperText m f flavour)
          (quote m.url :: quote f.name :: g.forwardedArguments m f flavour))

/-- The preload of a module is a call with the URL as its literal. -/
theorem body_providedPreload :
    (g.providedPreload m).body = .beside (callText "GetOrLoadModule" [quote m.url]) := by
  have hOpen : ("GetOrLoadModule(\"" : String) = "GetOrLoadModule" ++ "(" ++ "\"" := rfl
  have hClose : ("\")" : String) = "\"" ++ ")" := rfl
  rw [providedPreload, callText_singleton, quote, hOpen, hClose]
  simp only [String.append_assoc]

/-- The call of a helper begins with two literals, the URL and the declared
name. -/
theorem helperCall_eq_callText :
    g.helperCall m f flavour =
      callText (g.helperText m f flavour)
        (quote m.url :: quote f.name :: g.forwardedArguments m f flavour) := by
  have hOpen : (">(" : String) = ">" ++ "(" := rfl
  have hArguments : g.helperArguments m f flavour =
      quote m.url :: quote f.name :: g.forwardedArguments m f flavour := by
    rw [helperArguments, List.append_assoc]
    rfl
  rw [helperCall, callText, helperText, hArguments, hOpen]
  simp only [String.append_assoc]

/-- Every member of the class passes the URL, and every method the name of
its function, as literals. -/
theorem passesQuoted : g.PassesQuoted m where
  preload := g.body_providedPreload m
  methods := fun f _ flavour _ =>
    congrArg
      (fun call => MemberBody.below ((if g.isAwaited f flavour then "await " else "") ++ call))
      (g.helperCall_eq_callText m f flavour)

end Generator

/-! ### What the literals denote -/

/-- The characters of names stand for themselves in a literal. -/
theorem isLiteralChar_of_isNameChar {c : Char} (h : Text.isNameChar c = true) :
    isLiteralChar c = true := by
  have hAll := forall_isNameChar (p := fun c => !Text.isNameChar c || isLiteralChar c)
    (by decide +kernel) h
  rwa [h, Bool.not_true, Bool.false_or] at hAll

/-- The literal of a declared name denotes the name, because no character of
a name has to be escaped in a literal. -/
theorem Signature.Parsed.denotes_name {f : Signature} (h : f.Parsed) :
    Denotes (quote f.name).toList f.name.toList := by
  have hChars : ∀ c ∈ f.name.toList, isLiteralChar c = true := fun c hc =>
    isLiteralChar_of_isNameChar (Text.isNameChar_of_isName h.name hc)
  have hBackslash : '\\' ∉ f.name.toList := fun hMem => by cases hChars _ hMem
  rw [toList_quote, denotes_quoted_iff hBackslash]
  exact fun c hc => (isLiteralChar_iff fun hSame => hBackslash (hSame ▸ hc)).mp (hChars c hc)

namespace ScriptModule.Parsed

variable {m : ScriptModule}

/-- The URL of a module that was read is the one that its path gives. -/
theorem toList_url (h : m.Parsed) : m.url.toList = ModulePath.url m.path.toList := by
  rw [h.ofPath, ScriptModule.ofPath, String.toList_ofList]

/-- The literal of a URL denotes the URL exactly if the path has no quote
and stands on one line. -/
theorem denotes_url_iff (h : m.Parsed) :
    Denotes (quote m.url).toList m.url.toList ↔
      ∀ c ∈ m.path.toList, c ≠ '"' ∧ isLineEnd c = false := by
  have hLine : ∀ c ∈ ModulePath.fixedChars, isLineEnd c = false := not_lineEnd_of_any (by decide)
  have hQuote : '"' ∉ ModulePath.fixedChars := by decide
  have hPlain (c : Char) (hc : c ∈ ModulePath.fixedChars) : c ≠ '"' ∧ isLineEnd c = false :=
    ⟨fun hSame => hQuote (hSame ▸ hc), hLine c hc⟩
  have hSame {c : Char} (hSpecial : ¬(c ≠ '"' ∧ isLineEnd c = false)) :
      c ∈ ModulePath.url m.path.toList ↔ c ∈ m.path.toList :=
    ModulePath.mem_url_iff fun hFixed => hSpecial (hPlain c hFixed)
  rw [toList_quote, toList_url h, denotes_quoted_iff (ModulePath.not_backslash_mem_url _)]
  constructor
  · intro hUrl c hc
    by_contra hSpecial
    exact hSpecial (hUrl c ((hSame hSpecial).mpr hc))
  · intro hPath c hc
    by_contra hSpecial
    exact hSpecial (hPath c ((hSame hSpecial).mp hc))

end ScriptModule.Parsed

open TypeMember in
/-- The fragments for modules that were read call the runtime with literals
of two kinds. Those of function names denote the names. Those of URLs denote
the URLs exactly for the modules whose paths have no quote and no line
end. -/
theorem literals_of_generate {s : Settings} {sources : List (String × String)}
    {generated : GeneratedSources}
    (h : generate s (readModules sources).modules = .ok generated) :
    ∃ g, Generator.ofSettings s = .ok g ∧
      generated.modules.map (·.content) =
        (readModules sources).modules.map (fun m => g.moduleHead m ++ blockText (g.provided m)) ∧
      ∀ m ∈ (readModules sources).modules, g.PassesQuoted m ∧
        (∀ f ∈ m.functions, Denotes (quote f.name).toList f.name.toList) ∧
        (Denotes (quote m.url).toList m.url.toList ↔
          ∀ c ∈ m.path.toList, c ≠ '"' ∧ isLineEnd c = false) := by
  obtain ⟨g, hg, -, rfl⟩ := (Generator.generate_eq_ok_iff _).mp h
  refine ⟨g, hg, ?_, fun m hm => ?_⟩
  · rw [Generator.modules_emit_plan, List.map_map]
    exact List.map_congr_left fun m _ => g.moduleText_planModule m
  · have hParsed := parsed_of_mem_readModules hm
    exact ⟨g.passesQuoted m, fun f hf => (hParsed.functions f hf).denotes_name,
      hParsed.denotes_url_iff⟩

open TypeMember in
/-- A module below the web root, with an apostrophe and a blank in its
path. -/
theorem literals_of_generate_blank :
    let modules := (readModules
      [("wwwroot\\it's new.d.ts", "export function open(name: string): void;")]).modules
    ∃ generated, generate {} modules = .ok generated ∧
      ∃ g, Generator.ofSettings {} = .ok g ∧
        generated.modules.map (·.content) =
          modules.map (fun m => g.moduleHead m ++ blockText (g.provided m)) ∧
        ∀ m ∈ modules, g.PassesQuoted m ∧
          (∀ f ∈ m.functions, Denotes (quote f.name).toList f.name.toList) ∧
          (Denotes (quote m.url).toList m.url.toList ↔
            ∀ c ∈ m.path.toList, c ≠ '"' ∧ isLineEnd c = false) := by
  intro modules
  have hOk : (generate {} modules).map (fun _ => ()) = .ok () := by decide +kernel
  obtain ⟨generated, hGenerated, -⟩ := Outcomes.map_ok hOk
  exact ⟨generated, hGenerated, literals_of_generate hGenerated⟩

/-- A quote in a path ends the literal of the URL. -/
theorem generated_literal_ends_early :
    ∃ generated m g, generate {} [m] = .ok generated ∧ Generator.ofSettings {} = .ok g ∧
      (readModules [("a\"b.d.ts", "export function f(): void;")]).modules = [m] ∧
      (g.providedPreload m).body = .beside "GetOrLoadModule(\"/a\"b.js\")" ∧
      m.url = "/a\"b.js" ∧
      literal? (quote m.url ++ ")").toList = some ("/a".toList, "b.js\")".toList) ∧
      ¬Denotes (quote m.url).toList m.url.toList := by
  have hRead : (readModules [("a\"b.d.ts", "export function f(): void;")]).modules =
      [.ofPath "a\"b.d.ts" [⟨"f", [], [], .primitive .void, none⟩]] := by decide +kernel
  have hOk : (generate {} [.ofPath "a\"b.d.ts" [⟨"f", [], [], .primitive .void, none⟩]]).map
      (fun _ => ()) = .ok () := by decide +kernel
  obtain ⟨generated, hGenerated, -⟩ := Outcomes.map_ok hOk
  obtain ⟨g, hg, -, -⟩ := (Generator.generate_eq_ok_iff _).mp hGenerated
  have hUrl : (ScriptModule.ofPath "a\"b.d.ts" [⟨"f", [], [], .primitive .void, none⟩]).url =
      "/a\"b.js" := by decide +kernel
  have hValue : literal? (quote "/a\"b.js" ++ ")").toList =
      some ("/a".toList, "b.js\")".toList) := by decide +kernel
  refine ⟨generated, _, g, hGenerated, hg, hRead, ?_, hUrl, ?_, fun hDenotes => ?_⟩
  · rw [Generator.body_providedPreload, hUrl]
    decide +kernel
  · rw [hUrl, hValue]
  · specialize hDenotes [')']
    rw [hUrl] at hDenotes
    rw [String.toList_append] at hValue
    have hSame := hDenotes.symm.trans hValue
    cases hSame

end ScriptBindings
