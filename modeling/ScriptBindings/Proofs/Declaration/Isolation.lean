import Mathlib.Data.List.Basic
import ScriptBindings.Declaration.Reader

/-! Modules are read apart from each other. What a source adds to a reading
is read from that source alone; the sources before it only decide whether
its path is still free, and a source that cannot be read takes no path. -/
namespace ScriptBindings

open Declaration

/-- Whether the statements of a source can be told apart. -/
def isReadable (source : String) : Bool :=
  (statements source.toList).isOk

/-- Whether one of the pairs keeps the path. -/
def takesPath (pairs : List (String × String)) (path : String) : Bool :=
  pairs.any fun pair => pair.1 == path && isReadable pair.2

/-- The module that a pair adds behind the pairs before it. -/
def addedModule? (earlier : List (String × String)) (pair : String × String) :
    Option ScriptModule :=
  if takesPath earlier pair.1 then none else (readModule pair.1 pair.2).module?

/-- What is reported on a pair behind the pairs before it. -/
def addedDiagnostics (earlier : List (String × String)) (pair : String × String) :
    List Diagnostic :=
  (readModule pair.1 pair.2).diagnostics ++
    if isReadable pair.2 && takesPath earlier pair.1 then
      [.place pair.1 pair.2.toList 0 (.duplicateSymbol pair.1)]
    else []

variable {path source : String} {kept : List String} {earlier sources : List (String × String)}
  {m : ScriptModule}

/-! ### One source -/

/-- A module comes of exactly the sources whose statements can be told
apart, be the statements malformed or not. -/
theorem isSome_module?_readModule (path source : String) :
    (readModule path source).module?.isSome = isReadable source := by
  unfold readModule isReadable
  dsimp only
  cases statements source.toList <;> rfl

theorem path_of_module? (h : (readModule path source).module? = some m) : m.path = path := by
  unfold readModule at h
  dsimp only at h
  cases hFound : statements source.toList with
  | error fault =>
      rw [hFound] at h
      cases h
  | ok found =>
      rw [hFound] at h
      cases h
      rfl

/-- A source that cannot be read is reported once, and the module is
lost. -/
theorem readModule_of_unreadable (path : String) (h : isReadable source = false) :
    ∃ fault, readModule path source = ⟨none, [fault]⟩ ∧ fault.path = path ∧
      fault.isFatal = true := by
  unfold isReadable at h
  unfold readModule
  dsimp only
  cases hFound : statements source.toList with
  | error fault => exact ⟨_, rfl, rfl, rfl⟩
  | ok found =>
      rw [hFound] at h
      cases h

/-- A path is taken by the first readable source that has it. Later sources
with the path are reported and dropped. -/
theorem takesPath_concat (pair : String × String) (path : String) :
    takesPath (earlier ++ [pair]) path =
      (takesPath earlier path || (pair.1 == path && isReadable pair.2)) := by
  simp [takesPath]

/-! ### A run over the sources -/

/-- The paths kept are those that the sources read so far take. -/
def Keeps (kept : List String) (earlier : List (String × String)) : Prop :=
  ∀ path, kept.contains path = takesPath earlier path

/-- A source that cannot be read takes no path, so that a later one may have
it. -/
theorem Keeps.of_unreadable (h : Keeps kept earlier) (hSource : isReadable source = false) :
    Keeps kept (earlier ++ [(path, source)]) := by
  intro other
  rw [takesPath_concat, h other, hSource, Bool.and_false, Bool.or_false]

theorem Keeps.of_taken (h : Keeps kept earlier) (hTaken : kept.contains path = true) :
    Keeps kept (earlier ++ [(path, source)]) := by
  intro other
  rw [takesPath_concat, ← h other]
  by_cases hSame : path = other
  · rw [← hSame, hTaken, Bool.true_or]
  · rw [beq_eq_false_iff_ne.mpr hSame, Bool.false_and, Bool.or_false]

theorem Keeps.cons (h : Keeps kept earlier) (hSource : isReadable source = true) :
    Keeps (path :: kept) (earlier ++ [(path, source)]) := by
  intro other
  rw [takesPath_concat, ← h other, hSource, Bool.and_true, List.contains_cons, Bool.or_comm,
    Bool.beq_comm]

/-- One step of a run: a source adds what it adds behind the earlier ones,
and the run goes on with it among them. -/
theorem exists_readModulesFrom_cons (pair : String × String) (h : Keeps kept earlier) :
    ∃ next, Keeps next (earlier ++ [pair]) ∧ ∀ rest,
      readModulesFrom kept (pair :: rest) =
        ⟨(addedModule? earlier pair).toList ++ (readModulesFrom next rest).modules,
          addedDiagnostics earlier pair ++ (readModulesFrom next rest).diagnostics⟩ := by
  obtain ⟨path, source⟩ := pair
  have hSome := isSome_module?_readModule path source
  simp only [readModulesFrom]
  cases hModule : (readModule path source).module? with
  | none =>
      have hSource : isReadable source = false := by rw [← hSome, hModule]; rfl
      refine ⟨kept, h.of_unreadable hSource, fun rest => ?_⟩
      simp [addedModule?, addedDiagnostics, hModule, hSource]
  | some m =>
      have hSource : isReadable source = true := by rw [← hSome, hModule]; rfl
      cases hTaken : kept.contains path with
      | true =>
          have hEarlier : takesPath earlier path = true := h path ▸ hTaken
          refine ⟨kept, h.of_taken hTaken, fun rest => ?_⟩
          simp [addedModule?, addedDiagnostics, hSource, hEarlier]
      | false =>
          have hEarlier : takesPath earlier path = false := h path ▸ hTaken
          refine ⟨path :: kept, h.cons hSource, fun rest => ?_⟩
          simp [addedModule?, addedDiagnostics, hModule, hEarlier]

/-- A run adds for each source what it adds behind all sources before it. By
induction on the sources, with the paths taken so far as the invariant. -/
theorem readModulesFrom_eq (sources : List (String × String)) (h : Keeps kept earlier) :
    readModulesFrom kept sources =
      ⟨(sources.zipIdx earlier.length).filterMap fun entry =>
          addedModule? ((earlier ++ sources).take entry.2) entry.1,
        (sources.zipIdx earlier.length).flatMap fun entry =>
          addedDiagnostics ((earlier ++ sources).take entry.2) entry.1⟩ := by
  induction sources generalizing kept earlier with
  | nil => rfl
  | cons pair rest ih =>
      obtain ⟨next, hNext, hStep⟩ := exists_readModulesFrom_cons pair h
      have hSplit : earlier ++ pair :: rest = (earlier ++ [pair]) ++ rest := by simp
      have hHere : (earlier ++ [pair] ++ rest).take earlier.length = earlier := by simp
      have hLength : (earlier ++ [pair]).length = earlier.length + 1 := by simp
      rw [hStep, ih hNext, List.zipIdx_cons, List.filterMap_cons, List.flatMap_cons, hSplit, hHere,
        hLength]
      cases addedModule? earlier pair <;> rfl

/-- A run over the front of the sources goes on over the rest. All that the
rest can see of the front are the paths that were taken. -/
theorem exists_readModulesFrom_append (front : List (String × String)) (h : Keeps kept earlier) :
    ∃ next, ∀ back,
      readModulesFrom kept (front ++ back) =
        ⟨(readModulesFrom kept front).modules ++ (readModulesFrom next back).modules,
          (readModulesFrom kept front).diagnostics ++
            (readModulesFrom next back).diagnostics⟩ := by
  induction front generalizing kept earlier with
  | nil => exact ⟨kept, fun back => rfl⟩
  | cons pair rest ih =>
      obtain ⟨next, hNext, hStep⟩ := exists_readModulesFrom_cons pair h
      obtain ⟨last, hLast⟩ := ih hNext
      refine ⟨last, fun back => ?_⟩
      rw [List.cons_append, hStep, hStep, hLast, List.append_assoc, List.append_assoc]

/-- No module is read under a path that is taken, and no two under one
path. -/
theorem nodup_paths_readModulesFrom (h : Keeps kept earlier) :
    (∀ m ∈ (readModulesFrom kept sources).modules, takesPath earlier m.path = false) ∧
      ((readModulesFrom kept sources).modules.map (·.path)).Nodup := by
  induction sources generalizing kept earlier with
  | nil => exact ⟨by simp [readModulesFrom], List.nodup_nil⟩
  | cons pair rest ih =>
      obtain ⟨next, hNext, hStep⟩ := exists_readModulesFrom_cons pair h
      obtain ⟨hFree, hNodup⟩ := ih hNext
      simp only [takesPath_concat, Bool.or_eq_false_iff] at hFree
      rw [hStep]
      cases hAdded : addedModule? earlier pair with
      | none => exact ⟨fun m hm => (hFree m hm).1, hNodup⟩
      | some first =>
          unfold addedModule? at hAdded
          split at hAdded
          · cases hAdded
          · next hTaken =>
              have hPath : first.path = pair.1 := path_of_module? hAdded
              have hSource : isReadable pair.2 = true := by
                rw [← isSome_module?_readModule pair.1, hAdded]
                rfl
              refine ⟨fun m hm => ?_, List.nodup_cons.mpr ⟨fun hMem => ?_, hNodup⟩⟩
              · rcases List.mem_cons.mp hm with rfl | hm
                · rw [hPath]
                  simpa using hTaken
                · exact (hFree m hm).1
              · obtain ⟨m, hm, hSame⟩ := List.mem_map.mp hMem
                have hDiffers := (hFree m hm).2
                rw [show m.path = pair.1 from hSame.trans hPath, hSource, beq_self_eq_true]
                  at hDiffers
                cases hDiffers

/-- A source that cannot be read adds its faults and nothing else. -/
theorem readModulesFrom_unreadable (rest : List (String × String))
    (h : isReadable source = false) :
    readModulesFrom kept ((path, source) :: rest) =
      { readModulesFrom kept rest with
        diagnostics :=
          (readModule path source).diagnostics ++ (readModulesFrom kept rest).diagnostics } := by
  obtain ⟨fault, hReading, -, -⟩ := readModule_of_unreadable path h
  rw [readModulesFrom, hReading]

theorem keeps_nil : Keeps [] [] :=
  fun _ => rfl

/-- Modules are read apart. A pair gives a module if its source can be read
and no earlier pair keeps its path; every pair is reported by itself, and a
path kept before once more. A source that cannot be read may be put
anywhere: it costs one fatal diagnostic and leaves all else as it is. -/
theorem readModules_isolates (sources : List (String × String)) :
    (∀ path source, (readModule path source).module?.isSome = isReadable source) ∧
    (readModules sources).modules =
      sources.zipIdx.filterMap (fun entry => addedModule? (sources.take entry.2) entry.1) ∧
    (readModules sources).diagnostics =
      sources.zipIdx.flatMap (fun entry => addedDiagnostics (sources.take entry.2) entry.1) ∧
    ((readModules sources).modules.map (·.path)).Nodup ∧
    ∀ front back path source, sources = front ++ back → isReadable source = false →
      ∃ fault before after, readModule path source = ⟨none, [fault]⟩ ∧ fault.isFatal = true ∧
        (readModules (front ++ (path, source) :: back)).modules = (readModules sources).modules ∧
        (readModules sources).diagnostics = before ++ after ∧
        (readModules (front ++ (path, source) :: back)).diagnostics = before ++ fault :: after := by
  have hReading := readModulesFrom_eq sources keeps_nil
  refine ⟨isSome_module?_readModule, congrArg Reading.modules hReading,
    congrArg Reading.diagnostics hReading, (nodup_paths_readModulesFrom keeps_nil).2, ?_⟩
  rintro front back path source rfl hSource
  obtain ⟨fault, hModule, -, hFatal⟩ := readModule_of_unreadable path hSource
  obtain ⟨next, hNext⟩ := exists_readModulesFrom_append front keeps_nil
  refine ⟨fault, (readModules front).diagnostics, (readModulesFrom next back).diagnostics, hModule,
    hFatal, ?_, ?_, ?_⟩
  · rw [readModules, readModules, hNext, hNext, readModulesFrom_unreadable back hSource]
  · rw [readModules, hNext]
    rfl
  · rw [readModules, hNext, readModulesFrom_unreadable back hSource, hModule]
    rfl

/-- A source with an open bracket between two that share a path. -/
theorem readModules_isolates_unbalanced :
    let first := ("a.d.ts", "export function x(): void;")
    let again := ("a.d.ts", "export function y(): void;")
    let source := "export function b(x: Array<number): void;"
    isReadable source = false ∧
      ∃ fault before after, readModule "a.d.ts" source = ⟨none, [fault]⟩ ∧ fault.isFatal = true ∧
        (readModules [first, ("a.d.ts", source), again]).modules =
          (readModules [first, again]).modules ∧
        (readModules [first, again]).diagnostics = before ++ after ∧
        (readModules [first, ("a.d.ts", source), again]).diagnostics = before ++ fault :: after := by
  intro first again source
  have hSource : isReadable source = false := by decide +kernel
  exact ⟨hSource, (readModules_isolates [first, again]).2.2.2.2 [first] [again] "a.d.ts" source rfl
    hSource⟩

end ScriptBindings
