import ThreeAddress.Proofs.Emission.Module
import ThreeAddress.Proofs.Typing.Stmt

/-!
# Functions keep to a setting

A function starts from a sound body if the module scope keeps to the setting, and then all its
instructions are sound. The module scope keeps to a setting if every function that is bound in it may
be called.

## Main statements

* `Stages.Of.sound`: a function starts from a sound body.
* `Stages.Of.proceeds`: a function is lowered within a setting.
* `Stages.Of.sound_code`: the instructions of a function are sound.
* `Setting.Binds.declareSupport`, `Setting.Binds.bindFunctions`: the module scope keeps to a setting.
* `Setting.Binds.forall₂_admits`: every function is lowered within a setting that the prelude keeps to.
-/

namespace ThreeAddress

variable {table : TypeTable} {setting : Setting table} {names : List String}

theorem Setting.Binds.prologue {scope : Scope} (h : setting.Binds [] scope)
    {parameters : List (String × Ty)} {returns : Option Ty}
    (hparameters : ∀ parameter ∈ parameters, setting.value parameter.2)
    (hreturns : ∀ ty ∈ returns, setting.value ty)
    (hincoming : ∀ parameter ∈ (scope.prologue parameters returns).parameters,
      setting.known parameter.incoming.register)
    (hslot : ∀ slot ∈ (scope.prologue parameters returns).returnSlot, setting.known slot.register) :
    setting.Binds (parameters.map Prod.fst) (scope.prologue parameters returns).scope := by
  rw [Scope.parameters_prologue] at hincoming
  have hentered : setting.Binds (parameters.map Prod.fst) (scope.enter parameters).2 := by
    simpa using h.enter hparameters hincoming
  have hlabelled := hentered.label "cr"
  cases returns with
  | none => exact hlabelled
  | some ty => exact hlabelled.mint "retptr" (fun _ _ => hreturns ty rfl) fun _ => hslot _ rfl

theorem Prologue.mem_code_of_mem {prologue : Prologue} {parameter : Parameter}
    (h : parameter ∈ prologue.parameters) :
    .alloca parameter.slot.register parameter.slot.ty ∈ prologue.code :=
  List.mem_append_left _ (List.mem_flatMap.mpr ⟨parameter, h, List.mem_cons_self⟩)

theorem Prologue.alloca_mem_code {prologue : Prologue} {slot : Var}
    (h : slot ∈ prologue.returnSlot) : .alloca slot.register slot.ty ∈ prologue.code :=
  List.mem_append_right _ (List.mem_map.mpr ⟨slot, Option.mem_toList.mpr h, rfl⟩)

/-- The stack slot of the returned value is not that of a parameter. -/
theorem Prologue.slot_ne {scope : Scope} {parameters : List (String × Ty)} {returns : Option Ty}
    {prologue : Prologue} (hprologue : scope.prologue parameters returns = prologue)
    {parameter : Parameter} (hparameter : parameter ∈ prologue.parameters) {slot : Var}
    (hslot : slot ∈ prologue.returnSlot) : parameter.slot.register ≠ slot.register := by
  have hnodup := hprologue ▸ scope.nodup_registers_prologue parameters returns
  refine (List.nodup_append.mp hnodup).2.2 _ ?_ _ ?_
  · exact List.mem_flatMap.mpr ⟨parameter, hparameter, by simp [Parameter.registers]⟩
  · exact List.mem_cons_of_mem _ (List.mem_map.mpr ⟨slot, Option.mem_toList.mpr hslot, rfl⟩)

/-- What a function has to find in the module scope to start from a sound body. -/
structure Setting.Admits (setting : Setting table) (root : Scope) (prologue : Prologue) : Prop where
  keyed : root.Keyed
  binds : setting.Binds [] root
  incoming : ∀ parameter ∈ prologue.parameters, setting.known parameter.incoming.register
  slot : ∀ slot ∈ prologue.returnSlot, setting.known slot.register
  stage : setting.stage prologue.scope
  spared : setting.spared = []
  kept : ∀ register ∈ setting.kept, ∃ slot ∈ prologue.returnSlot, slot.register = register

theorem value_of_denoteSignature (setting : Setting table) {definition : FunctionDef}
    {signature : Signature} (h : table.denoteSignature definition = .ok signature) :
    (∀ ty ∈ signature.parameters, setting.value ty) ∧ ∀ ty ∈ signature.returns, setting.value ty := by
  obtain ⟨hparameters, hreturns⟩ := TypeTable.denotes_of_denoteSignature h
  refine ⟨?_, Lowering.value_of_mapM_denote hreturns⟩
  intro ty hmem
  obtain ⟨position, hlt, rfl⟩ := List.mem_iff_getElem.mp hmem
  exact Lowering.value_of_denoteChars (hparameters.get (hparameters.length_eq ▸ hlt) hlt)

namespace Stages.Of

variable {unchecked : Prop} {function : FunctionCode} {stages : Stages unchecked function}
  {globals : Globals} {definition : FunctionDef} {signature : Signature}

/-- A function starts from a sound body. -/
theorem sound (h : stages.Of globals table definition signature)
    (hsignature : table.denoteSignature definition = .ok signature)
    (hadmits : setting.Admits globals.root stages.prologue) :
    stages.start.Sound setting (definition.parameters.map TypedName.name) ∧
      stages.frame.Sound setting stages.start := by
  obtain ⟨hparameters, hreturns⟩ := value_of_denoteSignature setting hsignature
  let parameters := (definition.parameters.map TypedName.name).zip signature.parameters
  have hnames : parameters.map Prod.fst = definition.parameters.map TypedName.name :=
    TypeTable.map_fst_zip hsignature
  have hslot : ∀ slot ∈ stages.frame.returnSlot, slot ∈ stages.prologue.returnSlot := by
    rw [h.frame_eq]
    exact fun _ hmem => hmem
  have hentry : stages.start.entry = stages.prologue.code := stages.entry_start
  have hscope : stages.start.scope = stages.prologue.scope := h.scope_start
  refine ⟨⟨?_, ?_, ?_, ?_, ?_⟩, ?_⟩
  · rw [hscope, ← h.prologue_eq]
    exact hadmits.keyed.prologue _ _
  · rw [hscope]
    exact hadmits.stage
  · intro register hmem
    obtain ⟨slot, hslotmem, rfl⟩ := hadmits.kept register hmem
    rw [hscope, ← h.prologue_eq]
    refine Scope.inUse_prologue _ _ _ ?_
    rw [h.prologue_eq]
    exact List.mem_append_right _ (List.mem_cons_of_mem _
      (List.mem_map.mpr ⟨slot, Option.mem_toList.mpr hslotmem, rfl⟩))
  · rw [← hnames, hscope, ← h.prologue_eq]
    refine hadmits.binds.prologue (fun parameter hmem => hparameters _ (List.of_mem_zip hmem).2)
      hreturns ?_ ?_ <;> rw [h.prologue_eq]
    · exact hadmits.incoming
    · exact hadmits.slot
  · intro _ name hmem
    rw [← hnames] at hmem
    obtain ⟨parameter, hparameter, hfound⟩ :=
      hadmits.keyed.exists_find?_prologue parameters signature.returns hmem
    rw [h.prologue_eq] at hparameter hfound
    refine ⟨parameter.slot, by rw [hscope]; exact hfound, ?_, ?_⟩
    · rw [hentry]
      exact Prologue.mem_code_of_mem hparameter
    · intro _ hkept
      obtain ⟨slot, hmem, heq⟩ := hadmits.kept _ hkept
      exact Prologue.slot_ne h.prologue_eq hparameter hmem heq.symm
  · refine ⟨by rw [h.frame_eq], hadmits.spared, fun slot hmem => hreturns _ ?_, fun slot hmem => ?_⟩
    · rw [← globals.root.map_ty_returnSlot parameters signature.returns, h.prologue_eq,
        Option.mem_def.mp (hslot slot hmem)]
      rfl
    · rw [hentry]
      exact Prologue.alloca_mem_code (hslot slot hmem)

end Stages.Of

theorem Instr.Sound.ret {body : Body} {value : Option Value}
    (h : ∀ returned ∈ value, returned.Sound setting body) : (Instr.ret value).Sound setting body where
  types hchecked := by
    refine ⟨?_, by simp [address?], by simp [indices], by simp, by simp, rfl⟩
    intro register spelling hmem
    simp only [typedUses, List.mem_map, Option.mem_toList, Prod.mk.injEq] at hmem
    obtain ⟨returned, hmem, heq, rfl⟩ := hmem
    exact (h returned hmem).produces hchecked register heq
  calls := by simp
  stores := by simp
  bases := by simp

theorem Lowering.proceeds_leave {frame : Frame} {body last : Body} {result : Unit}
    (h : (leave frame).eval body = .ok (result, last)) (hsound : body.Sound setting names)
    (hframe : frame.Sound setting body) : body.Proceeds setting names last := by
  simp only [leave, Pass.eval_bind_eq_ok_iff] at h
  obtain ⟨_, labelled, hlabel, h⟩ := h
  have hlabelled := proceeds_emit hlabel hsound (.label frame.exit)
  cases hslot : frame.returnSlot with
  | none =>
    simp only [hslot] at h
    exact hlabelled.trans (proceeds_emit h hlabelled.sound (.ret (by simp)))
  | some slot =>
    simp only [hslot, Pass.eval_bind_eq_ok_iff] at h
    obtain ⟨value, minted, hmade, _, loaded, hload, hreturn⟩ := h
    obtain ⟨hgrown, hty, -⟩ := advances_temporary hmade hlabelled.sound
      fun _ => hframe.known slot hslot
    have hminted := hlabelled.trans hgrown.proceeds
    have hloaded := proceeds_emit hload hminted.sound
      (.load _ ((hminted.soundFrame hframe).place hslot))
    have hvalue : value.value.Sound setting.release loaded := by
      rw [Var.value, hty]
      refine ⟨hframe.known slot hslot, ?_⟩
      rintro - _ ⟨⟩
      exact produces_of_emit hload rfl rfl
    exact hminted.trans (hloaded.trans
      (proceeds_emit hreturn hloaded.sound (.ret (by simpa using hvalue))))

/-- A function is lowered within a setting, and what it mentions without declaring it is known. -/
theorem Stages.Of.proceeds {unchecked : Prop} {function : FunctionCode}
    {stages : Stages unchecked function} {globals : Globals} {definition : FunctionDef}
    {signature : Signature} (h : stages.Of globals table definition signature)
    (hsignature : table.denoteSignature definition = .ok signature)
    (hadmits : setting.Admits globals.root stages.prologue)
    (hscoped : setting.checked → definition.isScoped) :
    stages.start.Proceeds setting
      (definition.parameters.map TypedName.name ++ Block.declares definition.body)
      (stages.ending.append (.ret stages.value)) ∧
        ∀ stray ∈ definition.strays, setting.known stray := by
  obtain ⟨hstart, hframe⟩ := h.sound hsignature hadmits
  obtain ⟨hfinished, hstrays⟩ := Lowering.proceeding_lowerStmts stages.frame definition.body hscoped
    h.lowered hstart hframe
  have hleft := Lowering.proceeds_leave h.left hfinished.sound (hfinished.soundFrame hframe)
  exact ⟨hfinished.trans hleft, hstrays⟩

/-- The instructions behind the entry of a function are sound. -/
theorem Stages.Of.sound_code {unchecked : Prop} {function : FunctionCode}
    {stages : Stages unchecked function} {globals : Globals} {definition : FunctionDef}
    {signature : Signature} (h : stages.Of globals table definition signature)
    (hsignature : table.denoteSignature definition = .ok signature)
    (hadmits : setting.Admits globals.root stages.prologue)
    (hscoped : setting.checked → definition.isScoped) :
    ∀ instruction ∈ function.code,
      instruction.Sound setting.release (stages.ending.append (.ret stages.value)) := by
  obtain ⟨added, hcode, hadded⟩ := (h.proceeds hsignature hadmits hscoped).1.advances.code
  rw [stages.code_start, List.nil_append, Body.code_append, ← stages.code_eq] at hcode
  rw [hcode]
  exact hadded

section Rounds

variable {globals last : Globals}

/-- Nothing is bound in a module without a prelude. -/
theorem Setting.binds_empty (setting : Setting table) : setting.Binds names (Scope.nest {}) := by
  have hnone (name : String) : (Scope.nest {}).find? name = none := rfl
  constructor <;> simp [hnone]

theorem Setting.Binds.declareSupport {functions : List Support}
    {declared : List (String × Signature)}
    (h : (ThreeAddress.declareSupport functions).eval globals = .ok (declared, last))
    (hcallable : ∀ (function : Support) (register : String),
      (register, function.signature) ∈ declared → setting.callable register function.signature)
    (hbinds : setting.Binds names globals.root) : setting.Binds names last.root := by
  induction functions generalizing globals declared with
  | nil =>
    obtain ⟨-, rfl⟩ := Pass.eval_pure_eq_ok_iff.mp h
    exact hbinds
  | cons function rest ih =>
    simp only [ThreeAddress.declareSupport, Pass.eval_bind_eq_ok_iff, Pass.eval_get_eq_ok_iff] at h
    obtain ⟨_, _, ⟨rfl, rfl⟩, h⟩ := h
    split at h
    · exact ih h hcallable hbinds
    · simp only [Pass.eval_bind_eq_ok_iff, Pass.eval_pure_eq_ok_iff] at h
      obtain ⟨var, middle, hbind, others, _, hrest, rfl, rfl⟩ := h
      obtain ⟨rfl, hroot⟩ := eval_bindGlobal hbind
      refine ih hrest
        (fun other register hmem => hcallable other register (List.mem_cons_of_mem _ hmem)) ?_
      rw [hroot]
      exact hbinds.insertFunction _ rfl (hcallable function _ List.mem_cons_self)

theorem Setting.Binds.bindFunctions {seen : List String} {definitions : List FunctionDef}
    {functions : List BoundFunction}
    (h : (ThreeAddress.bindFunctions table seen definitions).eval globals = .ok (functions, last))
    (hcallable : ∀ function ∈ functions, setting.callable function.symbol function.signature)
    (hbinds : setting.Binds names globals.root) : setting.Binds names last.root := by
  induction definitions generalizing globals seen functions with
  | nil =>
    obtain ⟨-, rfl⟩ := Pass.eval_pure_eq_ok_iff.mp h
    exact hbinds
  | cons definition rest ih =>
    simp only [ThreeAddress.bindFunctions, Pass.eval_bind_eq_ok_iff, Pass.eval_require_eq_ok_iff,
      Pass.eval_ofExcept_eq_ok_iff, Pass.eval_pure_eq_ok_iff] at h
    obtain ⟨_, _, ⟨-, rfl⟩, signature, _, ⟨-, rfl⟩, var, _, hbind, bound, _, hrest, rfl, rfl⟩ := h
    obtain ⟨rfl, hroot⟩ := eval_bindGlobal hbind
    refine ih hrest (fun function hmem => hcallable function (List.mem_cons_of_mem _ hmem)) ?_
    rw [hroot]
    exact hbinds.insertFunction _ rfl (hcallable _ List.mem_cons_self)

/-- Where the prelude keeps to a setting that restricts no names, every function is lowered within the
setting. -/
theorem Setting.Binds.forall₂_admits {prelude : Scope} {support : List (String × Signature)}
    {declared named : Globals} {definitions : List FunctionDef} {bound : List BoundFunction}
    {codes : List FunctionCode} {final : Draft} (h : setting.Binds [] prelude.nest)
    (hkeyed : prelude.Keyed)
    (hsupport : (ThreeAddress.declareSupport Support.all).eval { root := prelude.nest } =
      .ok (support, declared))
    (hbind : (ThreeAddress.bindFunctions table [] definitions).eval declared = .ok (bound, named))
    (hcodes : (lowerFunctions table bound).eval { globals := named } = .ok (codes, final))
    (hdeclared : ∀ (function : Support) (register : String),
      (register, function.signature) ∈ support → setting.callable register function.signature)
    (hbound : ∀ function ∈ bound, setting.callable function.symbol function.signature)
    (hknown : ∀ name, setting.known name) (hstage : ∀ scope, setting.stage scope)
    (hspared : setting.spared = []) (hkept : setting.kept = []) :
    List.Forall₂ (fun definition function => ∃ globals signature,
      ∃ stages : Stages True function, stages.Of globals table definition signature ∧
        table.denoteSignature definition = .ok signature ∧
        setting.Admits globals.root stages.prologue) definitions codes := by
  obtain ⟨hdefinitions, hsignatures, hrooted⟩ := eval_bindFunctions hbind
  have hall := forall₂_loweredIn (fun root => root.Keyed ∧ setting.Binds [] root)
    (fun _ constant hroot => ⟨hroot.1.mint _ _, hroot.2.addConstant constant (hknown _)⟩) hcodes
    hsignatures
    ⟨hrooted (keyed_declareSupport hsupport hkeyed.nest),
      (h.declareSupport hsupport hdeclared).bindFunctions hbind hbound⟩
  rw [← hdefinitions, List.forall₂_map_left_iff]
  refine hall.imp fun function code hlowered => ?_
  obtain ⟨globals, stages, hstages, hroot, hbinds⟩ := hlowered.exists_stages
  exact ⟨globals, _, stages, hstages, hlowered.signature_eq, hroot, hbinds, fun _ _ => hknown _,
    fun _ _ => hknown _, hstage _, hspared, by simp [hkept]⟩

end Rounds

end ThreeAddress
