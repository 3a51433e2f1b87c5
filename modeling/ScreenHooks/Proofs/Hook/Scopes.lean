/-
The names in the code of a usage document.

The component of a usage document introduces constants: `screen`, `name` and `onSubmit`,
and one for each utility hook, named like the hook without `use`. Nothing compares them
with the wrappers that the document imports, so the constant of the hook `useResend` hides
a wrapper `resend`. And where no model is configured, the component calls `useScreen`
without an import.

* **`accessorName_hookBinding`** — the constant of a hook tells its name;
* **`wellScoped_usageCode`** — when the code is well scoped;
* **`usage_scoped_iff`** — the same for hooks that are named by convention;
* **`usage_unscoped`** — code that is not.
-/
import ScreenHooks.Proofs.Hook.Bindings
import ScreenHooks.Proofs.Hook.Usage
import ScreenHooks.Proofs.Naming

namespace ScreenHooks.Hook

open Text

/-- Whether code calls nothing but what it imports, and no constant of it has the name of
something imported or of another constant. -/
@[mk_iff]
structure WellScoped (code : List UsageLine) : Prop where
  calls : ∀ name ∈ code.flatMap UsageLine.called, name ∈ code.flatMap UsageLine.imported
  distinct : (code.flatMap UsageLine.consts).Nodup
  apart : ∀ name ∈ code.flatMap UsageLine.consts, name ∉ code.flatMap UsageLine.imported

/-! ### Constants of hooks -/

/-- Whether a hook is named by convention: `use` and a capital letter, but not `useUse`. -/
structure UtilityHook.Conventional (hook : UtilityHook) : Prop where
  capital : ∃ c rest, hook.hook.toList = "use".toList ++ c :: rest ∧ c.isUpper = true
  once : startsWith hook.hook "useUse" = false

section Constants

variable {hook : UtilityHook} {c : Char} {rest : List Char}

theorem toList_hookBinding (h : hook.hook.toList = "use".toList ++ c :: rest) :
    (hookBinding hook).toList = lowerChars c ++ rest := by
  simp [hookBinding, h, dropPrefix?]

theorem toList_accessorName (model : String) :
    (accessorName model).toList = "use".toList ++ capitalizeChars model.toList := by
  have hcapital : (capitalize model).toList = capitalizeChars model.toList := String.toList_ofList
  rw [accessorName, String.toList_append, hcapital]

theorem startsWith_accessorName (model : String) :
    startsWith (accessorName model) "use" = true := by
  rw [startsWith, toList_accessorName]
  exact List.isPrefixOf_iff_prefix.2 (List.prefix_append _ _)

/-- A hook that is named by convention is `use` and its constant, capitalized. -/
theorem UtilityHook.Conventional.parts (h : hook.Conventional) : ∃ c rest, c.isLower = true ∧
    (hookBinding hook).toList = c :: rest ∧
      hook.hook.toList = "use".toList ++ c.toUpper :: rest := by
  obtain ⟨c, rest, hhook, hc⟩ := h.capital
  have halpha := isUpper_alpha hc
  have hascii := (isAlphanum_ascii (isAlphanum_iff.2 (.inl halpha))).2
  refine ⟨c.toLower, rest, ?_, ?_, ?_⟩
  · rw [Char.isLower_toLower_eq_isAlpha, halpha]
  · rw [toList_hookBinding hhook, lowerChars, if_pos hascii, List.singleton_append]
  · rw [Char.toUpper_toLower_eq_toUpper,
      Char.toUpper_eq_of_not_isLower (Char.not_isLower_of_isUpper hc), hhook]

/-- Such a hook is the accessor of a model that is named like its constant. -/
theorem accessorName_hookBinding (h : hook.Conventional) :
    accessorName (hookBinding hook) = hook.hook := by
  obtain ⟨c, rest, hc, hbinding, hhook⟩ := h.parts
  apply String.toList_inj.1
  rw [toList_accessorName, hbinding, capitalizeChars_lower hc, hhook]

/-- The constant of the accessor of a model is named like the model. -/
theorem hookBinding_of_accessorName {model : String} (hmodel : model.toList = c :: rest)
    (hc : c.isLower = true) (h : hook.hook = accessorName model) : hookBinding hook = model := by
  obtain ⟨hascii, -, -, hlower⟩ := isLower_raised hc
  have hhook : hook.hook.toList = "use".toList ++ c.toUpper :: rest := by
    rw [h, toList_accessorName, hmodel, capitalizeChars_lower hc]
  apply String.toList_inj.1
  rw [toList_hookBinding hhook, lowerChars, if_pos hascii, hlower, hmodel, List.singleton_append]

theorem startsWith_hook (h : hook.Conventional) : startsWith hook.hook "use" = true := by
  rw [← accessorName_hookBinding h]
  exact startsWith_accessorName _

theorem startsWith_hookBinding (h : hook.Conventional) :
    startsWith (hookBinding hook) "use" = false := by
  obtain ⟨c, rest, -, hbinding, hhook⟩ := h.parts
  apply Bool.eq_false_iff.2
  intro huse
  -- the hook would start with `use` twice
  obtain ⟨more, hmore⟩ := List.isPrefixOf_iff_prefix.1 huse
  obtain ⟨rfl, rfl⟩ := List.cons.inj (hmore.trans hbinding)
  refine Bool.eq_false_iff.1 h.once (List.isPrefixOf_iff_prefix.2 ⟨more, ?_⟩)
  rw [hhook]
  rfl

end Constants

/-! ### Scopes -/

section Scopes

variable {settings : Settings} {unit : Screen.Unit} {interfaces : Screen.Interfaces}

/-- The constants of the component that no hook is kept in. -/
def fixedConstants : List String := ["screen", "name", "onSubmit"]

/-- What is imported starts like a hook, but for the wrappers and what hooks are named
against the convention. -/
theorem startsWith_imported {name : String} (h : name ∈ exampleImports settings unit interfaces) :
    startsWith name "use" = true ∨ name ∈ wrapperNames settings interfaces ∨
      name ∈ (takenHooks settings interfaces).map (·.hook) := by
  rw [imports_eq, List.mem_cons, List.mem_append, List.mem_append] at h
  rcases h with rfl | (haccessor | hwrapper) | hhook
  · exact .inl (List.isPrefixOf_iff_prefix.2 (by simp [Screen.Unit.primaryHook]))
  · obtain ⟨model, -, rfl⟩ := List.mem_map.1 (List.mem_of_mem_take haccessor)
    exact .inl (startsWith_accessorName model)
  · exact .inr (.inl hwrapper)
  · exact .inr (.inr hhook)

theorem shownHook_imported_iff : shownHook settings ∈ exampleImports settings unit interfaces ↔
    (settings.contextModels = [] → "useScreen" ∈ exampleImports settings unit interfaces) := by
  rw [imports_eq, shownHook]
  cases settings.contextModels with
  | nil => simp
  | cons model more => simp

/-- The code calls what it imports if a model is configured, or else if `useScreen` is
imported for another reason. -/
theorem calls_iff (package : String) :
    (∀ name ∈ (usageCode settings unit interfaces package).flatMap UsageLine.called,
      name ∈ exampleImports settings unit interfaces) ↔
    (settings.contextModels = [] → "useScreen" ∈ exampleImports settings unit interfaces) := by
  have hprimary : unit.primaryHook ∈ exampleImports settings unit interfaces :=
    List.mem_cons_self
  have hhooks : ∀ name ∈ (takenHooks settings interfaces).map (·.hook),
      name ∈ exampleImports settings unit interfaces := by
    intro name hname
    rw [imports_eq]
    exact List.mem_cons_of_mem _ (List.mem_append_right _ hname)
  have hwrappers : ∀ name ∈ wrapperNames settings interfaces,
      name ∈ exampleImports settings unit interfaces := by
    intro name hname
    rw [imports_eq]
    exact List.mem_cons_of_mem _ (List.mem_append_left _ (List.mem_append_right _ hname))
  rw [called_usageCode, ← shownHook_imported_iff]
  simp only [List.forall_mem_cons, List.forall_mem_append]
  exact ⟨fun h => h.2.1, fun h => ⟨hprimary, h, hhooks, hwrappers⟩⟩

/-- The constants are those of the component and those of hooks. -/
theorem consts_perm (package : String) :
    ((usageCode settings unit interfaces package).flatMap UsageLine.consts).Perm
      (fixedConstants ++ (takenHooks settings interfaces).map hookBinding) := by
  rw [consts_usageCode]
  exact (List.perm_append_comm.cons _).cons _

/-- The code calls what it imports under the condition above; and its constants are apart
if those of hooks are. -/
theorem wellScoped_usageCode (package : String) :
    WellScoped (usageCode settings unit interfaces package) ↔
      (settings.contextModels = [] → "useScreen" ∈ exampleImports settings unit interfaces) ∧
      (∀ constant ∈ fixedConstants,
        constant ∉ (takenHooks settings interfaces).map hookBinding ∧
          constant ∉ exampleImports settings unit interfaces) ∧
      ((takenHooks settings interfaces).map hookBinding).Nodup ∧
      ∀ constant ∈ (takenHooks settings interfaces).map hookBinding,
        constant ∉ exampleImports settings unit interfaces := by
  have hperm := @consts_perm settings unit interfaces package
  have hfixed : fixedConstants.Nodup := by decide
  -- the constants are the fixed ones and those of the hooks, in some order
  have hdistinct : ((usageCode settings unit interfaces package).flatMap UsageLine.consts).Nodup ↔
      ((takenHooks settings interfaces).map hookBinding).Nodup ∧
        ∀ constant ∈ fixedConstants,
          constant ∉ (takenHooks settings interfaces).map hookBinding := by
    rw [hperm.nodup_iff, List.nodup_append', and_iff_right hfixed]
    rfl
  have hapart : (∀ name ∈ (usageCode settings unit interfaces package).flatMap UsageLine.consts,
      name ∉ exampleImports settings unit interfaces) ↔
      (∀ constant ∈ fixedConstants, constant ∉ exampleImports settings unit interfaces) ∧
        ∀ constant ∈ (takenHooks settings interfaces).map hookBinding,
          constant ∉ exampleImports settings unit interfaces := by
    rw [← List.forall_mem_append]
    exact forall_congr' fun name => by rw [hperm.mem_iff]
  rw [wellScoped_iff, imported_usageCode, calls_iff, hdistinct, hapart]
  simp only [imp_and, forall_and]
  tauto

/-- The constants of different hooks that are named by convention are different. -/
theorem nodup_hookBindings (unit : Screen.Unit)
    (hmethods : (interfaces.methods.map (·.name)).Nodup)
    (hhooks : (settings.utilityHooks.map (·.hook)).Nodup)
    (h : ∀ hook ∈ takenHooks settings interfaces, hook.Conventional) :
    ((takenHooks settings interfaces).map hookBinding).Nodup := by
  have hnames : ((takenHooks settings interfaces).map (·.hook)).Nodup := by
    have hmodule := @hookNames_nodup settings unit interfaces hmethods hhooks
    rw [Module.hookNames, Module.of, List.map_map] at hmodule
    rw [takenHooks, List.map_map]
    exact hmodule
  refine List.Nodup.map_on (fun a ha b hb hab => ?_) hnames.of_map
  refine List.inj_on_of_nodup_map hnames ha hb ?_
  rw [← accessorName_hookBinding (h a ha), hab, accessorName_hookBinding (h b hb)]

/-- A constant of the component is the constant of a hook exactly if the hook is named like
the accessor of a model of that name. -/
theorem fixed_mem_hookBindings_iff (h : ∀ hook ∈ takenHooks settings interfaces, hook.Conventional)
    {constant : String} (hconstant : constant ∈ fixedConstants) :
    constant ∈ (takenHooks settings interfaces).map hookBinding ↔
      accessorName constant ∈ (takenHooks settings interfaces).map (·.hook) := by
  have hlower : ∀ constant ∈ fixedConstants, ∃ c rest, constant.toList = c :: rest ∧
      c.isLower = true := by
    simp [fixedConstants]
  obtain ⟨c, rest, hchars, hc⟩ := hlower constant hconstant
  simp only [List.mem_map]
  constructor
  · rintro ⟨hook, hhook, rfl⟩
    exact ⟨hook, hhook, (accessorName_hookBinding (h hook hhook)).symm⟩
  · rintro ⟨hook, hhook, hname⟩
    exact ⟨hook, hhook, hookBinding_of_accessorName hchars hc hname⟩

/-- What does not start like a hook is imported as a wrapper only. -/
theorem imported_iff_wrapper (h : ∀ hook ∈ takenHooks settings interfaces, hook.Conventional)
    {name : String} (hname : startsWith name "use" = false) :
    name ∈ exampleImports settings unit interfaces ↔ name ∈ wrapperNames settings interfaces := by
  constructor
  · intro himported
    rcases startsWith_imported himported with huse | hwrapper | hhookName
    · rw [huse] at hname
      cases hname
    · exact hwrapper
    · obtain ⟨hook, hhook, rfl⟩ := List.mem_map.1 hhookName
      rw [startsWith_hook (h hook hhook)] at hname
      cases hname
  · intro hwrapper
    rw [imports_eq]
    exact List.mem_cons_of_mem _ (List.mem_append_left _ (List.mem_append_right _ hwrapper))

/-- Where methods and hooks have different names, the code is well scoped exactly if it
calls `useScreen` for an imported name only and its constants are apart. For hooks that are
named by convention their constants are apart from each other, and may only be named like
a wrapper or like another constant of the component. -/
theorem usage_scoped_iff (package : String) (hmethods : (interfaces.methods.map (·.name)).Nodup)
    (hhooks : (settings.utilityHooks.map (·.hook)).Nodup) :
    let code := usageCode settings unit interfaces package
    let imports := exampleImports settings unit interfaces
    let wrappers := wrapperNames settings interfaces
    let hooks := takenHooks settings interfaces
    (WellScoped code ↔
      (settings.contextModels = [] → "useScreen" ∈ imports) ∧
      (∀ constant ∈ fixedConstants, constant ∉ hooks.map hookBinding ∧ constant ∉ imports) ∧
      (hooks.map hookBinding).Nodup ∧ ∀ constant ∈ hooks.map hookBinding, constant ∉ imports) ∧
    ((∀ hook ∈ settings.utilityHooks, hook.Conventional) → (WellScoped code ↔
      (settings.contextModels = [] → "useScreen" ∈ imports) ∧
      (∀ constant ∈ fixedConstants, accessorName constant ∉ hooks.map (·.hook) ∧
        constant ∉ wrappers) ∧
      ∀ hook ∈ hooks, hookBinding hook ∉ wrappers)) := by
  intro code imports wrappers hooks
  refine ⟨wellScoped_usageCode package, fun hconventional => ?_⟩
  have htaken : ∀ hook ∈ takenHooks settings interfaces, hook.Conventional := by
    intro hook hhook
    obtain ⟨bound, hbound, rfl⟩ := List.mem_map.1 hhook
    exact hconventional bound.2 (@mem_hooked _ _ bound.1 bound.2 hbound).2
  have hfixed : ∀ constant ∈ fixedConstants, startsWith constant "use" = false := by decide
  -- a hook with a name by convention and its constant tell each other
  have hconstants : (∀ constant ∈ fixedConstants, constant ∉ hooks.map hookBinding ∧
      constant ∉ imports) ↔ ∀ constant ∈ fixedConstants,
        accessorName constant ∉ hooks.map (·.hook) ∧ constant ∉ wrappers := by
    refine forall₂_congr fun constant hconstant => ?_
    rw [fixed_mem_hookBindings_iff htaken hconstant,
      imported_iff_wrapper htaken (hfixed constant hconstant)]
  have hbindings : (∀ constant ∈ hooks.map hookBinding, constant ∉ imports) ↔
      ∀ hook ∈ hooks, hookBinding hook ∉ wrappers := by
    rw [List.forall_mem_map]
    refine forall₂_congr fun hook hhook => ?_
    rw [imported_iff_wrapper htaken (startsWith_hookBinding (htaken hook hhook))]
  rw [wellScoped_usageCode, hconstants, hbindings,
    and_iff_right (nodup_hookBindings unit hmethods hhooks htaken)]

end Scopes

theorem usage_scoped_login :
    ((loginInterfaces []).methods.map (·.name)).Nodup ∧
      (({} : Settings).utilityHooks.map (·.hook)).Nodup ∧
      (∀ hook ∈ ({} : Settings).utilityHooks, hook.Conventional) ∧
      WellScoped (usageCode {} loginUnit (loginInterfaces []) "@acme/auth-react") := by
  have hmethods : ((loginInterfaces []).methods.map (·.name)).Nodup := by decide
  have hhooks : (({} : Settings).utilityHooks.map (·.hook)).Nodup := by decide
  have hresend : UtilityHook.resend.Conventional :=
    ⟨⟨'R', "esend".toList, by decide +kernel, rfl⟩, by decide⟩
  have hconventional : ∀ hook ∈ ({} : Settings).utilityHooks, hook.Conventional := by
    simpa using hresend
  refine ⟨hmethods, hhooks, hconventional, ?_⟩
  rw [(@usage_scoped_iff {} loginUnit (loginInterfaces []) _ hmethods hhooks).2 hconventional]
  exact ⟨nofun, by decide +kernel, by decide +kernel⟩

/-- A method `resend` beside the one that takes the hook `useResend`. -/
def resendInterfaces : Screen.Interfaces where
  methods := [⟨"resend", []⟩, ⟨"resendManager", []⟩]

/-- Without models the component calls a hook that is not imported; and the constant of a
hook may hide a wrapper. -/
theorem usage_unscoped :
    ((({} : Screen.Interfaces).methods.map (·.name)).Nodup ∧
      (({ contextModels := [] } : Settings).contextModels.map accessorName).Nodup ∧
      (({ contextModels := [] } : Settings).utilityHooks.map (·.hook)).Nodup ∧
      ¬ WellScoped (usageCode { contextModels := [] } loginUnit {} "bindings")) ∧
    ((resendInterfaces.methods.map (·.name)).Nodup ∧
      (({} : Settings).contextModels.map accessorName).Nodup ∧
      (({} : Settings).utilityHooks.map (·.hook)).Nodup ∧
      ¬ WellScoped (usageCode {} loginUnit resendInterfaces "bindings")) := by
  refine ⟨⟨by decide, by decide, by decide, fun h => ?_⟩, by decide, by decide, by decide,
    fun h => ?_⟩
  · have hcall := h.calls "useScreen"
    rw [called_usageCode, imported_usageCode] at hcall
    exact absurd (hcall (by decide +kernel)) (by decide +kernel)
  · have hconst := h.apart "resend"
    rw [consts_usageCode, imported_usageCode] at hconst
    exact hconst (by decide +kernel) (by decide +kernel)

end ScreenHooks.Hook
