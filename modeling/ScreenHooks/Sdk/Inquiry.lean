/-
Computations that ask about files and modules.

An inquiry puts one question after another: whether a path names a file, or
which module a path in normal form holds. What it asks next, and what it ends
with, depends on the answers alone. Everything that is read of a core package
is read by an inquiry, so a disk can answer it with or without a memory of
earlier answers.

* **`instLawfulMonadInquiry`** — inquiries in sequence.
-/
import ScreenHooks.Failure
import ScreenHooks.Script.Module

namespace ScreenHooks.Sdk

open Script

/-- A computation that asks about files and modules. -/
inductive Inquiry (α : Type) where
  | done (result : α)
  /-- Whether a path names a file. -/
  | askFile (path : Path) (next : Bool → Inquiry α)
  /-- Which module a path in normal form holds, if any. -/
  | askModule (key : Path) (next : Except Failure (Option Module) → Inquiry α)

namespace Inquiry

/-- Goes on with what an inquiry ends with. -/
def bind {α β : Type} : Inquiry α → (α → Inquiry β) → Inquiry β
  | done result, f => f result
  | askFile path next, f => askFile path fun found => (next found).bind f
  | askModule key next, f => askModule key fun found => (next found).bind f

instance : Monad Inquiry where
  pure := done
  bind := bind

theorem bind_done {α : Type} (x : Inquiry α) : x.bind done = x := by
  induction x with
  | done result => rfl
  | askFile path next ih => exact congrArg (askFile path) (funext ih)
  | askModule key next ih => exact congrArg (askModule key) (funext ih)

theorem bind_bind {α β γ : Type} (x : Inquiry α) (f : α → Inquiry β) (g : β → Inquiry γ) :
    (x.bind f).bind g = x.bind fun a => (f a).bind g := by
  induction x with
  | done result => rfl
  | askFile path next ih => exact congrArg (askFile path) (funext ih)
  | askModule key next ih => exact congrArg (askModule key) (funext ih)

instance instLawfulMonadInquiry : LawfulMonad Inquiry :=
  LawfulMonad.mk' Inquiry bind_done (fun _ _ => rfl) bind_bind

end Inquiry

/-- What the file at a path in normal form holds as a module. -/
def readModule (d : Disk) (key : Path) : Except Failure (Option Module) :=
  if d.isFile key then
    match d.readText key with
    | .ok source => .ok (some (Module.read (Module.dialectOf key) source))
    | .error cause => .error (.file ⟨.readModule, key, cause⟩)
  else .ok none

end ScreenHooks.Sdk
