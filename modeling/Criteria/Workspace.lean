import Criteria.Attempt
import Criteria.Tally

/-!
# Workspaces

What a step of a build works on: a store of its own, the host in which handles
and records are made, and the tally. The store changes from one stage of a build
to the next while host and tally stay.
-/

namespace Criteria

/-- A store `S` over a host `W`, with a tally. -/
structure Workspace (S W : Type) where
  store : S
  host : W
  tally : Tally

namespace Workspace

variable {ε S T W α : Type}

/-- An attempt on the host. -/
def onHost (x : Attempt ε W α) : Attempt ε (Workspace S W) α :=
  x.onPart host fun host w => { w with host }

@[simp] theorem run_onHost (x : Attempt ε W α) (w : Workspace S W) :
    (onHost x).run w = ((x.run w.host).1, { w with host := (x.run w.host).2 }) := rfl

/-- Changes the store. -/
def changeStore (f : S → S) : Attempt ε (Workspace S W) Unit :=
  .change fun w => { w with store := f w.store }

@[simp] theorem run_changeStore (f : S → S) (w : Workspace S W) :
    (changeStore f : Attempt ε _ Unit).run w = (.ok (), { w with store := f w.store }) := rfl

/-- Changes the tally. -/
def record (f : Tally → Tally) : Attempt ε (Workspace S W) Unit :=
  .change fun w => { w with tally := f w.tally }

@[simp] theorem run_record (f : Tally → Tally) (w : Workspace S W) :
    (record f : Attempt ε _ Unit).run w = (.ok (), { w with tally := f w.tally }) := rfl

/-- An attempt with a store of its own over the same host and tally; its store is handed out with
its result. -/
def withStore (store : T) (x : Attempt ε (Workspace T W) α) :
    Attempt ε (Workspace S W) (α × T) :=
  ⟨fun w =>
    let (r, inner) := x.run ⟨store, w.host, w.tally⟩
    (r.map (·, inner.store), ⟨w.store, inner.host, inner.tally⟩)⟩

@[simp] theorem run_withStore (store : T) (x : Attempt ε (Workspace T W) α) (w : Workspace S W) :
    (withStore store x).run w =
      let (r, inner) := x.run ⟨store, w.host, w.tally⟩
      (r.map (·, inner.store), ⟨w.store, inner.host, inner.tally⟩) := rfl

end Workspace

end Criteria
