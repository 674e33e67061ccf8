import ScriptBindings.Discovery
import ScriptBindings.Proofs.Outcomes
import ScriptBindings.Storage.Tree

/-! Computations that only read their state. Asking a storage for what it
holds changes nothing, and neither does anything that is composed of
questions. -/
namespace ScriptBindings

open Outcomes

variable {σ ε φ α β : Type}

theorem bind_apply (x : StateM σ α) (next : α → StateM σ β) (s : σ) :
    (x >>= next) s = next (x s).1 (x s).2 := rfl

/-- A computation that leaves every state as it was. -/
def ReadOnly (x : StateM σ α) : Prop :=
  ∀ s, (x s).2 = s

namespace ReadOnly

/-- A computation that only reads gives the state back as it was. -/
theorem eq {x : StateM σ α} (h : ReadOnly x) (s : σ) : x s = ((x s).1, s) :=
  Prod.ext rfl (h s)

protected theorem pure (a : α) : ReadOnly (pure a : StateM σ α) := fun _ => rfl

protected theorem bind {x : StateM σ α} {next : α → StateM σ β} (hx : ReadOnly x)
    (hNext : ∀ a, ReadOnly (next a)) : ReadOnly (x >>= next) := by
  intro s
  rw [bind_apply, hx s, hNext _ s]

/-! ### Computations with faults -/

protected theorem throw (fault : ε) : ReadOnly (throw fault : ExceptT ε (StateM σ) α).run :=
  fun _ => rfl

/-- Reading may be done within a computation that can fail. -/
protected theorem lift {x : StateM σ α} (h : ReadOnly x) :
    ReadOnly (liftM x : ExceptT ε (StateM σ) α).run :=
  h.bind fun a => .pure (Except.ok a)

protected theorem except_pure (a : α) : ReadOnly (pure a : ExceptT ε (StateM σ) α).run :=
  .pure (Except.ok a)

/-- Reading that can fail may be followed by reading, whether the first part
fails or not. -/
protected theorem except_bind {x : ExceptT ε (StateM σ) α} {next : α → ExceptT ε (StateM σ) β}
    (hx : ReadOnly x.run) (hNext : ∀ a, ReadOnly (next a).run) : ReadOnly (x >>= next).run := by
  rw [ExceptT.run_bind]
  refine hx.bind fun outcome => ?_
  cases outcome with
  | error fault => exact .pure _
  | ok a => exact hNext a

protected theorem adapt {x : ExceptT ε (StateM σ) α} (h : ReadOnly x.run) (f : ε → φ) :
    ReadOnly (x.adapt f).run :=
  h.bind fun outcome => .pure (Except.mapError f outcome)

/-- A list that is computed element by element. -/
protected theorem mapM {f : α → ExceptT ε (StateM σ) β} (h : ∀ a, ReadOnly (f a).run)
    (xs : List α) : ReadOnly (xs.mapM f).run := by
  induction xs with
  | nil => exact .except_pure []
  | cons a rest ih =>
      rw [List.mapM_cons]
      exact (h a).except_bind fun b => ih.except_bind fun bs => .except_pure (b :: bs)

end ReadOnly

/-- What a computation with faults gives in a state. -/
def outcome (x : ExceptT ε (StateM σ) α) (s : σ) : Except ε α :=
  (x.run s).1

namespace ReadOnly

variable {x : ExceptT ε (StateM σ) α} {s : σ}

/-- What such a computation gives is a function of the state, which is
called its outcome. -/
theorem run_eq (h : ReadOnly x.run) (s : σ) : x.run s = (outcome x s, s) :=
  h.eq s

/-- The state of a computation that only reads is the state of what comes
after it. -/
theorem outcome_bind {next : α → ExceptT ε (StateM σ) β} (h : ReadOnly x.run) :
    outcome (x >>= next) s = outcome x s >>= fun a => outcome (next a) s := by
  unfold outcome
  rw [ExceptT.run_bind, bind_apply, h s]
  cases (x.run s).1 <;> rfl

/-- Over a list each item is read in the same state, so that the outcomes
may be taken one by one. -/
theorem outcome_mapM {f : α → ExceptT ε (StateM σ) β} (h : ∀ a, ReadOnly (f a).run)
    (xs : List α) (s : σ) : outcome (xs.mapM f) s = xs.mapM fun a => outcome (f a) s := by
  induction xs with
  | nil => rfl
  | cons a rest ih =>
      rw [List.mapM_cons, List.mapM_cons, (h a).outcome_bind]
      congr 1
      funext b
      rw [(ReadOnly.mapM h rest).outcome_bind, ih]
      rfl

end ReadOnly

/-! ### Reading a tree -/

namespace FileTree

theorem readOnly_kind? (path : String) : ReadOnly (Storage.kind? path : StateM FileTree _) :=
  fun _ => rfl

theorem readOnly_readText (path : String) : ReadOnly (Storage.readText path : StateM FileTree _) :=
  fun _ => rfl

theorem readOnly_listing (path : String) : ReadOnly (Storage.listing path : StateM FileTree _) :=
  fun _ => rfl

section Answers

variable {tree : FileTree} {path : String}

/-! What a tree answers to a question is the answer of the tree itself. -/

/-- Asking for the kind of a path goes on with what the tree says about it.
The same holds for the other two questions below. -/
theorem outcome_kind?_bind {next : Option EntryKind → ExceptT ε (StateM FileTree) α} :
    outcome (liftM (Storage.kind? path : StateM FileTree _) >>= next) tree =
      outcome (next (tree.kind? path)) tree :=
  (readOnly_kind? path).lift.outcome_bind

theorem outcome_readText_bind {next : Except StorageFault String → ExceptT ε (StateM FileTree) α} :
    outcome (liftM (Storage.readText path : StateM FileTree _) >>= next) tree =
      outcome (next (tree.readText path)) tree :=
  (readOnly_readText path).lift.outcome_bind

theorem outcome_listing_bind {next : Except StorageFault Listing → ExceptT ε (StateM FileTree) α} :
    outcome (liftM (Storage.listing path : StateM FileTree _) >>= next) tree =
      outcome (next (tree.listing path)) tree :=
  (readOnly_listing path).lift.outcome_bind

end Answers

theorem readOnly_readModuleText (path : String) :
    ReadOnly (readModuleText path : ExceptT UnreadableModule (StateM FileTree) String).run := by
  refine (readOnly_readText path).lift.except_bind fun outcome => ?_
  cases outcome with
  | ok text => exact .except_pure text
  | error fault => exact .throw _

/-- Searching an input reads directories and files and writes nothing. -/
theorem readOnly_sources (base : String) (input : InputRoot) :
    ReadOnly (input.sources base :
      ExceptT UnreadableModule (StateM FileTree) (List (String × String))).run := by
  refine (readOnly_kind? _).lift.except_bind fun kind => ?_
  rcases kind with _ | kind
  · exact .except_pure []
  cases kind with
  | file => exact (readOnly_readModuleText _).except_bind fun text => .except_pure _
  | directory =>
      refine (readOnly_listing _).lift.except_bind fun outcome => ?_
      cases outcome with
      | error fault => exact .except_pure []
      | ok listing =>
          refine ReadOnly.mapM (fun relative => ?_) _
          exact (readOnly_readModuleText _).except_bind fun text => .except_pure _

/-- So does collecting the sources of all inputs, in whatever order they are
searched. -/
theorem readOnly_collectSources (base : String) (inputs : List InputRoot) :
    ReadOnly (collectSources base inputs :
      ExceptT UnreadableModule (StateM FileTree) (List (String × String))).run :=
  (ReadOnly.mapM (readOnly_sources base) inputs).except_bind fun found => .except_pure found.flatten

end FileTree

end ScriptBindings
