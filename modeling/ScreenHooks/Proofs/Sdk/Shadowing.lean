/-
Explicit exports and star exports of one module.

An export item that decides about a name ends the search among the items of its
module, whatever becomes of it: a declaration, a chain of specifiers that leads
nowhere, or one that cannot be followed. The star exports of the module are not
gone through for the name, so it makes no difference whether they are there. They
are gone through only where the search comes back to the module for another name, one
that no item decides about, and then their removal can be noticed.

* **`explicitLead?_unstarred`** — explicit items do not depend on star exports;
* **`follow_kept`** — a search depends only on the names that it goes through;
* **`explicit_shadows_stars`** — star exports behind explicit items;
* **`stars_not_shadowed`** — a search that comes back to the module.
-/
import ScreenHooks.Proofs.Disk.Editing
import ScreenHooks.Proofs.Sdk.Namesakes

namespace ScreenHooks

namespace Script

/-! ### Modules without their star exports -/

/-- Whether a statement is a star export. -/
def Statement.isStar : Statement → Bool
  | .exportStar _ | .exportTypeStar _ => true
  | _ => false

/-- The statements of a script that are no star exports. -/
def unstarred (script : List Statement) : List Statement := script.filter fun s => !s.isStar

/-- What the statements contribute stays where star exports contribute nothing. -/
theorem flatMap_unstarred {α : Type} {f : Statement → List α}
    (h : ∀ s : Statement, s.isStar = true → f s = []) (script : List Statement) :
    (unstarred script).flatMap f = script.flatMap f := by
  unfold unstarred
  induction script with
  | nil => rfl
  | cons s rest ih =>
    cases hstar : s.isStar with
    | true => rw [List.filter_cons_of_neg (by simp [hstar]), List.flatMap_cons, h s hstar, ih]; rfl
    | false => rw [List.filter_cons_of_pos (by simp [hstar]), List.flatMap_cons, List.flatMap_cons, ih]

theorem locals_of_isStar {s : Statement} (h : s.isStar = true) : s.locals = [] := by
  cases s <;> first | rfl | cases h

theorem importedNames_of_isStar {s : Statement} (h : s.isStar = true) : s.importedNames = [] := by
  cases s <;> first | rfl | cases h

theorem exports_of_isStar {s : Statement} (h : s.isStar = true) :
    ∃ source, s.exports = [.star source] := by
  cases s <;> first | exact ⟨_, rfl⟩ | cases h

end Script

namespace Sdk

open Script

variable {d d' : Disk} {p p' : Project} {scope scope' : Scope} {fuel : Nat} {path : Path}
  {name : String} {node : Node} {nodes : List Node} {visited after : Visited}
  {result : Option Resolved}

theorem find?_unstarred (script : List Statement) (name : String) :
    ((unstarred script).flatMap Statement.exports).find? (decides name) =
      (script.flatMap Statement.exports).find? (decides name) := by
  rw [← List.head?_filter, ← List.head?_filter, List.filter_flatMap, List.filter_flatMap]
  congr 1
  refine flatMap_unstarred (fun s hstar => ?_) script
  obtain ⟨source, hexports⟩ := exports_of_isStar hstar
  rw [hexports]
  rfl

/-- The explicit items of a module lead to the same places without its star exports. -/
theorem explicitLead?_unstarred (script : List Statement) (name : String) :
    explicitLead? (Module.ofStatements (unstarred script)) name =
      explicitLead? (Module.ofStatements script) name := by
  have hlocals : (Module.ofStatements (unstarred script)).locals =
      (Module.ofStatements script).locals :=
    congrArg Table.oldest (flatMap_unstarred (fun _ => locals_of_isStar) script)
  have himports : (Module.ofStatements (unstarred script)).imports =
      (Module.ofStatements script).imports :=
    congrArg Table.newest (flatMap_unstarred (fun _ => importedNames_of_isStar) script)
  rw [explicitLead?, explicitLead?, itemLead_congr hlocals himports, Module.ofStatements_exports,
    Module.ofStatements_exports, find?_unstarred]

/-! ### What a search depends on -/

/-- The names that the search for a declaration goes through. -/
def searched (d : Disk) (p : Project) (path : Path) (name : String) : Visited :=
  match (follow (Project.modules p.root) (maxDepth + 1) path name []).on d (p.scope d) with
  | .ok found => found.2
  | .error _ => []

/-- Whether a name leads to the same names on two disks, or to the same declaration. -/
structure Alike (d : Disk) (p : Project) (d' : Disk) (p' : Project) (node : Node) : Prop where
  readable : ∃ found, readModule d' node.1 = .ok found
  answer : answer? d' node = answer? d node
  next : successors d' p' node = successors d p node

/-- Alternatives are gone through as on another disk where each of them is. -/
theorem followFirst_kept
    (hnode : ∀ (node : Node) visited result after,
      (follow (Project.modules p.root) fuel node.1 node.2 visited).on d scope = .ok (result, after) →
      visited ⊆ after ∧ ((∀ other ∈ after, Alike d p d' p' other) →
        (follow (Project.modules p'.root) fuel node.1 node.2 visited).on d' scope' =
          .ok (result, after)))
    (h : (followFirst p fuel nodes visited).on d scope = .ok (result, after)) :
    visited ⊆ after ∧ ((∀ other ∈ after, Alike d p d' p' other) →
      (followFirst p' fuel nodes visited).on d' scope' = .ok (result, after)) := by
  induction nodes generalizing visited with
  | nil =>
    obtain ⟨rfl, rfl⟩ := Prod.mk.inj (Except.ok.inj h)
    exact ⟨List.Subset.refl _, fun _ => rfl⟩
  | cons node nodes ih =>
    obtain ⟨first, mid, hon, hcases⟩ := followFirst_cases h
    obtain ⟨hgrows, hsame⟩ := hnode node visited first mid hon
    rcases hcases with ⟨resolved, rfl, rfl, rfl⟩ | ⟨rfl, hrest⟩
    · exact ⟨hgrows, fun halike => followFirst_some (hsame halike) nodes⟩
    · obtain ⟨hgrowsRest, hsameRest⟩ := ih hrest
      refine ⟨List.Subset.trans hgrows hgrowsRest, fun halike => ?_⟩
      have hfirst := hsame fun other hother => halike other (hgrowsRest hother)
      exact (followFirst_none hfirst nodes).trans (hsameRest halike)

/-- A search goes the same way on another disk where all the names that it goes through
are alike. -/
theorem follow_kept
    (h : (follow (Project.modules p.root) fuel path name visited).on d scope = .ok (result, after)) :
    visited ⊆ after ∧ ((∀ other ∈ after, Alike d p d' p' other) →
      (follow (Project.modules p'.root) fuel path name visited).on d' scope' =
        .ok (result, after)) := by
  induction fuel generalizing path name visited result after with
  | zero =>
    obtain ⟨rfl, rfl⟩ := Prod.mk.inj (Except.ok.inj h)
    exact ⟨List.Subset.refl _, fun _ => rfl⟩
  | succ fuel ih =>
    rcases follow_cases h with ⟨hseen, rfl, rfl⟩ |
      ⟨hnew, found, hread, ⟨resolved, hanswer, rfl, rfl⟩ | ⟨hanswer, hfirst⟩⟩
    · exact ⟨List.Subset.refl _, fun _ => follow_visited hseen⟩
    · refine ⟨List.subset_cons_self _ _, fun halike => ?_⟩
      obtain ⟨⟨found', hread'⟩, hanswer', -⟩ := halike _ List.mem_cons_self
      exact follow_answer hnew hread' (hanswer'.trans hanswer)
    · obtain ⟨hgrows, hsame⟩ := followFirst_kept (fun _ _ _ _ => ih) hfirst
      obtain ⟨hself, hbefore⟩ := List.cons_subset.1 hgrows
      refine ⟨hbefore, fun halike => ?_⟩
      -- the names seen so far are among those at the end, this one too
      obtain ⟨⟨found', hread'⟩, hanswer', hnext⟩ := halike _ hself
      rw [follow_successors hnew hread' (hanswer'.trans hanswer), hnext]
      exact hsame halike

/-- Where all modules can be read, a declaration is searched for as on another disk
where the names on the way are alike. -/
theorem resolveExport_kept (hreadable : ∀ key, ∃ found, readModule d key = .ok found)
    (halike : ∀ node ∈ searched d p path name, Alike d p d' p' node) :
    (Project.resolveExport path name).on d' (p'.scope d') =
      (Project.resolveExport path name).on d (p.scope d) := by
  have hends : (follow (Project.modules p.root) (maxDepth + 1) path name []).Ends d (p.scope d) :=
    ends_follow
  obtain ⟨⟨result, after⟩, hon⟩ := hends.ok hreadable
  have hsearched : searched d p path name = after := by
    unfold searched
    simp only [hon]
  rw [hsearched] at halike
  have hkept : (follow (Project.modules p'.root) (maxDepth + 1) path name []).on d'
      (p'.scope d') = .ok (result, after) := (follow_kept hon).2 halike
  rw [on_resolveExport hon, on_resolveExport hkept]

/-! ### Removing star exports -/

/-- Whether an export item of the module at a key decides about a name. -/
def Explicit (d : Disk) (node : Node) : Prop :=
  ∃ module, readModule d node.1 = .ok (some module) ∧
    ∃ item ∈ module.exports, decides node.2 item = true

theorem Explicit.lead (h : Explicit d node) {module : Module}
    (hmodule : readModule d node.1 = .ok (some module)) :
    ∃ lead, explicitLead? module node.2 = some lead := by
  obtain ⟨module', hmodule', item, hitem, hdecides⟩ := h
  obtain rfl := Option.some.inj (Except.ok.inj (hmodule.symm.trans hmodule'))
  obtain ⟨first, hfirst⟩ := Option.isSome_iff_exists.1
    (List.find?_isSome.2 ⟨item, hitem, hdecides⟩)
  exact ⟨itemLead module first, by rw [explicitLead?, hfirst]; rfl⟩

theorem explicit_iff : Explicit d node ↔
    (moduleAt? d node.1).any (fun module => module.exports.any (decides node.2)) = true := by
  rw [Option.any_eq_true]
  constructor
  · rintro ⟨module, hmodule, hitems⟩
    exact ⟨module, moduleAt?_of_read hmodule, List.any_eq_true.2 hitems⟩
  · rintro ⟨module, hmodule, hitems⟩
    exact ⟨module, read_of_moduleAt hmodule, List.any_eq_true.1 hitems⟩

instance : Decidable (Explicit d node) := decidable_of_iff _ explicit_iff.symm

/-- Whether two disks differ only in the file at a place, which holds the same module on
the second one, but without the star exports. -/
structure StarsRemoved (d d' : Disk) (place : Place) : Prop where
  file : ∃ old new, d.at? place = some (.file old) ∧ d' = d.overwritten place (.text new)
  script : ∀ key, d.isFile key = true → d.spot key = place →
    scriptAt d' key = unstarred (scriptAt d key)

variable {place : Place}

/-- A text that spells the same statements but for the star exports. -/
theorem starsRemoved_of_text {old new : String} (hold : d.at? place = some (.file (.text old)))
    (hscript : ∀ dialect, statementsOf dialect new = unstarred (statementsOf dialect old)) :
    StarsRemoved d (d.overwritten place (.text new)) place := by
  refine ⟨⟨_, new, hold, rfl⟩, fun key hfile hspot => ?_⟩
  obtain ⟨hvalid, hdirs, -⟩ := Disk.isFile_iff.1 hfile
  have hread : d.readText key = .ok old :=
    Disk.readText_iff_hasFile.2 ⟨⟨hvalid, hdirs⟩, by rw [hspot, hold]⟩
  rw [scriptAt, scriptAt, hread, Disk.readText_overwritten hold hfile hspot]
  exact hscript _

theorem StarsRemoved.specifier? (h : StarsRemoved d d' place) (hroot : p'.root = p.root)
    (importer : Path) (specifier : String) :
    p'.specifier? d' importer specifier = p.specifier? d importer specifier := by
  obtain ⟨old, new, hold, rfl⟩ := h.file
  have hfile : (d.overwritten place (.text new)).isFile = d.isFile :=
    funext (Disk.overwritten_isFile hold)
  rw [Project.specifier?, Project.specifier?, hroot, hfile]

theorem StarsRemoved.nodeOf? (h : StarsRemoved d d' place) (hroot : p'.root = p.root) :
    nodeOf? d' p' = nodeOf? d p := by
  funext key name source
  rw [Sdk.nodeOf?, Sdk.nodeOf?, h.specifier? hroot]

/-- Names in other modules are not touched. -/
theorem StarsRemoved.alike_elsewhere (h : StarsRemoved d d' place) (hroot : p'.root = p.root)
    (hreadable : ∀ key, ∃ found, readModule d key = .ok found)
    (hnode : ¬ (d.isFile node.1 = true ∧ d.spot node.1 = place)) : Alike d p d' p' node := by
  have hread : readModule d' node.1 = readModule d node.1 := by
    obtain ⟨old, new, hold, rfl⟩ := h.file
    exact readModule_overwritten hold hnode
  have hmodule : moduleAt? d' node.1 = moduleAt? d node.1 := by rw [moduleAt?, moduleAt?, hread]
  refine ⟨hread ▸ hreadable node.1, ?_, ?_⟩
  · rw [answer?, answer?, hmodule]
  · rw [successors, successors, hmodule, h.nodeOf? hroot]

/-- What stands in the module without its star exports. -/
theorem StarsRemoved.read (h : StarsRemoved d d' place) {key : Path} (hfile : d.isFile key = true)
    (hspot : d.spot key = place) {module : Module} (hmodule : readModule d key = .ok (some module)) :
    ∃ module', readModule d' key = .ok (some module') ∧
      ∀ name, explicitLead? module' name = explicitLead? module name := by
  obtain ⟨old, new, hold, rfl⟩ := h.file
  have hread : readModule (d.overwritten place (.text new)) key =
      .ok (some (Module.read (Module.dialectOf key) new)) := by
    rw [readModule, Disk.overwritten_isFile hold, if_pos hfile,
      Disk.readText_overwritten hold hfile hspot]
  refine ⟨_, hread, fun name => ?_⟩
  rw [moduleAt?_eq_some (moduleAt?_of_read hread), moduleAt?_eq_some (moduleAt?_of_read hmodule),
    h.script key hfile hspot, explicitLead?_unstarred]

/-- Explicit items in the module lead where they led. -/
theorem StarsRemoved.alike_explicit (h : StarsRemoved d d' place) (hroot : p'.root = p.root)
    (hfile : d.isFile node.1 = true) (hspot : d.spot node.1 = place) (hnode : Explicit d node) :
    Alike d p d' p' node := by
  obtain ⟨module, hmodule, -⟩ := id hnode
  obtain ⟨lead, hlead⟩ := hnode.lead hmodule
  obtain ⟨module', hmodule', hleads⟩ := h.read hfile hspot hmodule
  refine ⟨⟨_, hmodule'⟩, ?_, ?_⟩
  · rw [answer?, answer?, moduleAt?_of_read hmodule, moduleAt?_of_read hmodule']
    simp only [Option.bind_some, hleads]
  · rw [successors, successors, moduleAt?_of_read hmodule, moduleAt?_of_read hmodule',
      h.nodeOf? hroot]
    simp only [hleads, hlead]
    cases lead <;> rfl

/-- Where all modules can be read, removing the star exports of a module does not change
what is found for a name that one of its declarations, list items or reexports decides
about, unless the search comes back to the module for another name that none of them
decides about. -/
theorem explicit_shadows_stars (hp : Inquiry.Sound d p)
    (hreadable : ∀ key, ∃ found, readModule d key = .ok found)
    (hexplicit : Explicit d (path.normalize, name))
    (hback : ∀ node ∈ searched d p path name, node ≠ (path.normalize, name) →
      d.isFile node.1 = true → d.spot node.1 = d.spot path.normalize → Explicit d node)
    (hremoved : StarsRemoved d d' (d.spot path.normalize)) (hp' : Inquiry.Sound d' p')
    (hroot : p'.root = p.root) :
    ((Project.resolveExport path name).run d' p').1 =
      ((Project.resolveExport path name).run d p).1 := by
  rw [Reading.run_eq hp, Reading.run_eq hp']
  refine resolveExport_kept hreadable fun node hnode => ?_
  -- a name on the way stands in the module, where it is explicit, or elsewhere
  by_cases hplace : d.isFile node.1 = true ∧ d.spot node.1 = d.spot path.normalize
  · refine hremoved.alike_explicit hroot hplace.1 hplace.2 ?_
    by_cases hstart : node = (path.normalize, name)
    · rw [hstart]
      exact hexplicit
    · exact hback node hnode hstart hplace.1 hplace.2
  · exact hremoved.alike_elsewhere hroot hreadable hplace

/-- A module with an export item and a star export behind which there are two names. -/
def shadowDisk (item behind : String) : Disk :=
  { entries := [(["core"], .directory),
      (["core", "m.ts"], .file (.text (item ++ "\nexport * from './c'"))),
      (["core", "b.ts"], .file (.text behind)),
      (["core", "c.ts"], .file (.text "export let x\nexport let y"))] }

/-- The disk without the star export. -/
def starlessDisk (item behind : String) : Disk :=
  (shadowDisk item behind).overwritten ["core", "m.ts"] (.text item)

/-- A reexport under a new name. -/
def renamed : String := "export \x7by as x\x7d from './b'"

/-- All names of a module under one name. -/
def gathered : String := "export * as x from './b'"

theorem readModule_shadow (item behind : String) (key : Path) :
    ∃ found, readModule (shadowDisk item behind) key = .ok found :=
  readModule_of_text (by simp [shadowDisk, Disk.files]) key

theorem starsRemoved_shadow {item : String} (hitem : ∀ dialect, statementsOf dialect item =
      unstarred (statementsOf dialect (item ++ "\nexport * from './c'"))) (behind : String) :
    StarsRemoved (shadowDisk item behind) (starlessDisk item behind)
      ((shadowDisk item behind).spot ⟨"/core/m.ts"⟩) := starsRemoved_of_text rfl hitem

theorem statementsOf_renamed (dialect : Dialect) : statementsOf dialect renamed =
    unstarred (statementsOf dialect (renamed ++ "\nexport * from './c'")) := by
  cases dialect <;> decide +kernel

theorem statementsOf_gathered (dialect : Dialect) : statementsOf dialect gathered =
    unstarred (statementsOf dialect (gathered ++ "\nexport * from './c'")) := by
  cases dialect <;> decide +kernel

theorem explicit_shadows_stars_renamed :
    ((Project.resolveExport ⟨"/core/m.ts"⟩ "x").run (starlessDisk renamed "export let y")
        flatProject).1 =
      ((Project.resolveExport ⟨"/core/m.ts"⟩ "x").run (shadowDisk renamed "export let y")
        flatProject).1 ∧
    ((Project.resolveExport ⟨"/core/m.ts"⟩ "x").run (shadowDisk renamed "export let y")
        flatProject).1 = .ok (some ⟨⟨"/core/b.ts"⟩, some "y", .variable⟩) := by
  have hsound : ∀ d, Inquiry.Sound d flatProject := fun _ _ _ h => by cases h
  have hnormal : Path.normalize ⟨"/core/m.ts"⟩ = ⟨"/core/m.ts"⟩ := by decide +kernel
  have hremoved := starsRemoved_shadow statementsOf_renamed "export let y"
  rw [← hnormal] at hremoved
  exact ⟨explicit_shadows_stars (hsound _) (readModule_shadow _ _) (by decide +kernel)
    (by decide +kernel) hremoved (hsound _) rfl, by decide +kernel⟩

/-- The search for `x` comes back to the module for `y`, which stands behind the star
export alone; and an export of a whole module under a name does not stop the search. -/
theorem stars_not_shadowed :
    (∀ item behind key, ∃ found, readModule (shadowDisk item behind) key = .ok found) ∧
    (Explicit (shadowDisk renamed "export * from './m'") (⟨"/core/m.ts"⟩, "x") ∧
      StarsRemoved (shadowDisk renamed "export * from './m'")
        (starlessDisk renamed "export * from './m'")
        ((shadowDisk renamed "export * from './m'").spot ⟨"/core/m.ts"⟩) ∧
      ((Project.resolveExport ⟨"/core/m.ts"⟩ "x").run (shadowDisk renamed "export * from './m'")
        flatProject).1 = .ok (some ⟨⟨"/core/c.ts"⟩, some "y", .variable⟩) ∧
      ((Project.resolveExport ⟨"/core/m.ts"⟩ "x").run (starlessDisk renamed "export * from './m'")
        flatProject).1 = .ok none) ∧
    ((moduleAt? (shadowDisk gathered "") ⟨"/core/m.ts"⟩).map (·.exports) =
        some [.space "x" "./b", .star "./c"] ∧
      StarsRemoved (shadowDisk gathered "") (starlessDisk gathered "")
        ((shadowDisk gathered "").spot ⟨"/core/m.ts"⟩) ∧
      ((Project.resolveExport ⟨"/core/m.ts"⟩ "x").run (shadowDisk gathered "") flatProject).1 =
        .ok (some ⟨⟨"/core/c.ts"⟩, some "x", .variable⟩) ∧
      ((Project.resolveExport ⟨"/core/m.ts"⟩ "x").run (starlessDisk gathered "") flatProject).1 =
        .ok none) := by
  refine ⟨readModule_shadow, ⟨by decide +kernel, starsRemoved_shadow statementsOf_renamed _,
    by decide +kernel, by decide +kernel⟩, ⟨by decide +kernel,
    starsRemoved_shadow statementsOf_gathered _, by decide +kernel, by decide +kernel⟩⟩

end Sdk

end ScreenHooks
