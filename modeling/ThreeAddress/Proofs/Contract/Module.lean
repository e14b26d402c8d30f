import ThreeAddress.Proofs.Contract.Function
import ThreeAddress.Proofs.Emission.Symbols

/-!
# Modules abide by a contract

The functions of a module are lowered one by one in the module scope. That scope upholds the contract
of the module: functions are called by the symbols that they are bound to. Constants are all that is
added to it in between, so every function calls what its body calls.

## Main statements

* `forall₂_callees`: what lowered functions call.
* `Scope.upholds_named`: the module scope upholds a contract.
-/

namespace ThreeAddress

variable {table : TypeTable} {definitions : List FunctionDef} {functions : List BoundFunction}
  {named : Globals}

/-- The code of every function calls what its body calls. -/
theorem forall₂_callees {htable : table.Grounded} {symbol : String → String}
    {codes : List FunctionCode} {draft final : Draft}
    (hrun : (lowerFunctions table functions).eval draft = .ok (codes, final))
    (hsignatures : ∀ function ∈ functions,
      table.denoteSignature function.definition = .ok function.signature)
    (hroot : draft.globals.root.Upholds (Contract.calling htable symbol)) :
    List.Forall₂ (fun function code => code.callees = Block.callees symbol function.definition.body)
      functions codes := by
  have hall := forall₂_loweredIn (fun root => root.Upholds (Contract.calling htable symbol))
    (fun _ constant hroot => hroot.addConstant constant) hrun hsignatures hroot
  refine hall.imp fun function code ⟨draft, last, hsignature, hroot, hlower⟩ => ?_
  have hgrounded := htable.denoteSignature hsignature
  obtain ⟨prologue, hprologue⟩ : ∃ prologue, draft.globals.root.prologue
    ((function.definition.parameters.map TypedName.name).zip function.signature.parameters)
      function.signature.returns = prologue := ⟨_, rfl⟩
  obtain ⟨finished, left, hstatements, hleave, -, hcode⟩ :=
    Lowering.eval_lowerDefinition hlower hprologue
  have hframe : Frame.Grounded table
      ⟨table, function.definition.name, prologue.exit, prologue.returnSlot⟩ :=
    Prologue.grounded_frame hprologue hgrounded.returns _
  have hstart : (draft.body.begin code.header prologue).Upholds (Contract.calling htable symbol) :=
    Draft.upholds_begin hroot hgrounded hprologue _
  have hforesees := Contract.foresees_calling htable symbol
    ⟨table, function.definition.name, prologue.exit, prologue.returnSlot⟩
    (Block.operations function.definition.body)
  obtain ⟨hfinished, hcallees, -⟩ :=
    (Lowering.abides_lowerStmts hframe _ hforesees hstart).ok trivial hstatements
  obtain ⟨-, hleft, -⟩ := (Lowering.abides_leave hframe hfinished).ok trivial hleave
  rw [hcode]
  calc left.callees = finished.callees := by rw [hleft, List.append_nil]
    _ = Block.callees symbol function.definition.body := by
      rw [hcallees, Body.callees_begin, List.nil_append]
      rfl

/-- The module scope upholds a contract if functions are called by the symbols that they are bound to. -/
theorem Scope.upholds_named {contract : Contract table}
    (hbind : (bindFunctions table [] definitions).eval .start = .ok (functions, named))
    (hsymbol : contract.symbol = symbolIn (symbolsOf functions)) :
    named.root.Upholds contract where
  keyed := (eval_bindFunctions hbind).2.2 Globals.keyed_start
  binds := Setting.grounded_binds_named eval_declareSupport_all hbind
  symbols := fun hfound _ => hsymbol ▸ register_eq_symbolIn hbind hfound

end ThreeAddress
