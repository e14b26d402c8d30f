import ThreeAddress.Proofs.Simulation.Expr

/-!
# Statements do what they mean

A machine in front of the code of some statements does what the evaluator does: it goes behind the
code with the same contents of all cells, or leaves the function with the same value.

## Main definitions

* `Image.Ends`: how a machine ends up, for each way in which statements end.
* `Simulated`: the link behind lowered statements, and that machines follow the evaluator through
  them.

## Main statements

* `simulating_lowerStmts`: this holds for all statements that are lowered in order.
-/

namespace ThreeAddress

open Lowering

namespace Image

/-- The exit of a function is in the code, and the returned value has a stack slot. -/
structure HasExit (image : Image) (frame : Frame) (exit : Body) : Prop where
  endsWith : exit.EndsWith (.label frame.exit)
  holds : image.Holds exit
  reserved : ∀ slot ∈ frame.returnSlot, slot.register ∈ image.slots

/-- A machine stands behind the exit with the returned value in its stack slot. -/
structure Returned (image : Image) (frame : Frame) (exit : Body) (value : Option Word)
    (machine : Machine) : Prop where
  position : machine.position = image.behind exit
  slots : ∀ register ∈ image.slots,
    machine.registers register = some (.address (image.address register))
  ty_eq : frame.returnSlot.map Var.ty = value.map fun word => .int word.width
  memory : ∀ slot ∈ frame.returnSlot, machine.memory (image.address slot.register) = value

/-- Where a machine is when statements have ended. -/
def Completed (image : Image) (frame : Frame) (exit last : Body) (machine : Machine) :
    Completion → Prop
  | .normal store => image.At last store machine
  | .returned value => image.Returned frame exit value machine

/-- A machine gets to where it is when statements have ended. -/
def Ends (image : Image) (frame : Frame) (exit last : Body) (machine : Machine)
    (completion : Completion) : Prop :=
  ∃ next, Machine.Reaches image.instructions machine next ∧
    image.Completed frame exit last next completion

theorem Ends.of_reaches {image : Image} {frame : Frame} {exit last : Body}
    {machine middle : Machine} {completion : Completion}
    (h : image.Ends frame exit last middle completion)
    (hreaches : Machine.Reaches image.instructions machine middle) :
    image.Ends frame exit last machine completion := by
  obtain ⟨next, hnext, hcompleted⟩ := h
  exact ⟨next, hreaches.trans hnext, hcompleted⟩

end Image

/-- From `body` to `last` something was lowered that the evaluator executes with `execute`. The link
behind it is known before anything runs. -/
structure Simulated (frame : Frame) (env : Env) (vars vars' : List Var) (body last : Body)
    (execute : Nat → Store → Option Completion) : Prop where
  linked : Linked env vars' last
  grows : body.Grows last
  extended : vars <+: vars'
  ends : ∀ ⦃image : Image⦄ ⦃exit : Body⦄, image.Holds last → vars' <+: image.cells →
    image.HasExit frame exit → ∀ ⦃fuel store machine completion⦄,
      execute fuel store = some completion → image.At body store machine →
      image.Ends frame exit last machine completion

variable {frame : Frame} {env env' : Env} {vars vars' vars'' : List Var} {body middle last : Body}
  {result : Unit}

/-- What comes next is simulated if it is reached. -/
theorem Simulated.andThen {first rest : Nat → Store → Option Completion}
    (h : Simulated frame env vars vars' body middle first)
    (h' : Simulated frame env' vars' vars'' middle last rest) :
    Simulated frame env' vars vars'' body last
      (fun fuel store => (first fuel store).bind (Completion.next (rest fuel))) := by
  refine ⟨h'.linked, h.grows.trans h'.grows, h.extended.trans h'.extended, ?_⟩
  intro image exit hholds hvars hexit fuel store machine completion hexecute hat
  obtain ⟨completion', hfirst, hrest⟩ := Option.bind_eq_some_iff.mp hexecute
  have hends := h.ends (hholds.of_grows h'.grows) (h'.extended.trans hvars) hexit hfirst hat
  obtain ⟨next, hreaches, hcompleted⟩ := hends
  cases completion' with
  | normal store' => exact (h'.ends hholds hvars hexit hrest hcompleted).of_reaches hreaches
  | returned value =>
    cases hrest
    exact ⟨next, hreaches, hcompleted⟩

-- ════════════════════════
-- Simple statements
-- ════════════════════════

theorem simulated_nothing (hlinked : Linked env vars body) :
    Simulated frame env vars vars body body fun _ store => some (.normal store) := by
  refine ⟨hlinked, .refl body, List.prefix_rfl, ?_⟩
  intro image exit _ _ _ fuel store machine completion hexecute hat
  cases hexecute
  exact ⟨machine, .refl machine, hat⟩

theorem TypeTable.width?_ofText {table : TypeTable} {text : String} {ty : Ty}
    (h : table.denote text = .ok ty) : (Shape.ofText text).width? = ty.width? := by
  have hdescribes := describes_ofText h
  unfold Shape.ofText Shape.ofName at hdescribes ⊢
  split at hdescribes
  · obtain rfl : ty = .int _ := hdescribes
    rfl
  · exact hdescribes.symm

/-- A declaration says the truth about its variable. -/
theorem describes_declared {name : String} {ty : Option String} {expression : Expr}
    {declared : Option Ty} {value : Value} {lowered : Body} (hlinked : Linked env vars body)
    (hdeclared : ty.mapM frame.table.denote = .ok declared)
    (hlower : (lowerExpr frame expression declared).eval body = .ok (value, lowered)) :
    (ty.bind fun text => (Shape.ofText text).width?) = declared.bind Ty.width? ∧
      ∃ shape, (Stmt.bind name ty expression).extend env = env.declare name shape ∧
        shape.Describes (declared.getD value.ty) := by
  cases ty with
  | none =>
    cases hdeclared
    exact ⟨rfl, _, rfl, hlinked.describes_lowerExpr hlower⟩
  | some text =>
    obtain ⟨found, hfound, rfl⟩ := TypeTable.exists_denote_of_mapM hdeclared
    exact ⟨TypeTable.width?_ofText hfound, _, rfl, TypeTable.describes_ofText hfound⟩

/-- Where an integer is expected, a word that may stand there has the right width. -/
theorem width_eq_of_agrees {ty ty' : Ty} {word : Word} (hagrees : ty.agrees ty')
    (hty : ty' = .int word.width) {width : Width} (hwidth : ty = .int width) :
    word.width = width := by
  subst hty hwidth
  exact Ty.width_eq_of_agrees hagrees

theorem simulated_declare {name : String} {ty : Option String} {expression : Expr}
    {returns : Option Width} (h : (declare frame name ty expression).eval body = .ok (result, last))
    (hlinked : Linked env vars body) :
    ∃ vars', Simulated frame ((Stmt.bind name ty expression).extend env) vars vars' body last
      (fun fuel store => (Stmt.bind name ty expression).execute fuel returns env store) := by
  obtain ⟨declared, value, lowered, hdeclared, hlower, hagrees, -, hstore⟩ := eval_declare h
  obtain ⟨hhint, shape, hextend, hshape⟩ := describes_declared hlinked hdeclared hlower
  have hkeeps := hlinked.keeps_lowerExpr hlower
  have hreserved := (hlinked.keeps hkeeps).declare name hshape
  have hkeeps' := keeps_emit hstore (by rintro _ ⟨⟩)
  have hgrows := lowered.grows_declare name (declared.getD value.ty)
  refine ⟨_, hextend ▸ hreserved.keeps hkeeps', (hkeeps.toGrows.trans hgrows).trans hkeeps'.toGrows,
    List.prefix_append _ _, ?_⟩
  intro image exit hholds hvars hexit fuel store machine completion hexecute hat
  simp only [Stmt.execute, Option.bind_eq_bind, Option.bind_eq_some_iff] at hexecute
  obtain ⟨word, hword, ⟨⟩⟩ := hexecute
  rw [hhint] at hword
  obtain ⟨next, hnext⟩ := Image.computing_lowerExpr ((List.prefix_append _ _).trans hvars)
    expression declared hword hlower hlinked
    ((hholds.of_grows hkeeps'.toGrows).of_grows hgrows) hat
  have hcell : image.cells[env.size]? =
      some (Var.make (lowered.scope.newRegister name) (declared.getD value.ty)) := by
    obtain ⟨more, hmore⟩ := hvars
    rw [← hmore, hlinked.size]
    simp
  have hagrees : (declared.getD value.ty).agrees value.ty := by
    cases declared with
    | none => simp [hnext.ty_eq, Ty.agrees]
    | some found => exact hagrees found rfl
  have hbefore : image.At ((lowered.rebind name (declared.getD value.ty)).reserve
      (Var.make (lowered.scope.newRegister name) (declared.getD value.ty))) store next :=
    hnext.behind.of_code_eq (Body.code_reserve _ _)
  obtain ⟨next', hreaches, hat'⟩ := hbefore.write hstore hholds hcell hnext.value_eq
    fun width hwidth => width_eq_of_agrees hagrees hnext.ty_eq hwidth
  exact ⟨next', hnext.reaches.trans hreaches, hat'⟩

theorem simulated_assign {target expression : Expr} {returns : Option Width}
    (h : (assign frame target expression).eval body = .ok (result, last))
    (hlinked : Linked env vars body) :
    Simulated frame env vars vars body last
      (fun fuel store => (Stmt.assign target expression).execute fuel returns env store) := by
  have hkeeps : body.Keeps last :=
    (extends_assign h hlinked.ready (Or.inl trivial)).steps.keeps fun h => h
  refine ⟨hlinked.keeps hkeeps, hkeeps.toGrows, List.prefix_rfl, ?_⟩
  intro image exit hholds hvars hexit fuel store machine completion hexecute hat
  cases target with
  | variableRef name =>
    simp only [Stmt.execute, Option.bind_eq_bind, Option.bind_eq_some_iff] at hexecute
    obtain ⟨⟨cell, shape⟩, hname, hint, hhint, word, hword, ⟨⟩⟩ := hexecute
    simp only [assign, lowerTarget, Pass.eval_bind_eq_ok_iff, eval_expectType_eq_ok_iff] at h
    obtain ⟨place, _, hplace, value, lowered, hlower, _, _, ⟨hagrees, rfl⟩, hstore⟩ := h
    obtain ⟨var, hfound, rfl, rfl⟩ := eval_variablePlace hplace
    obtain ⟨var', hcell, hfound', hshape⟩ := hlinked.cell hvars hname
    rw [hfound] at hfound'
    cases hfound'
    obtain rfl := hshape.hint_eq hhint
    obtain ⟨next, hnext⟩ := Image.computing_lowerExpr hvars expression (some var.ty) hword
      hlower hlinked (hholds.of_grows (grows_emit hstore)) hat
    obtain ⟨next', hreaches, hat'⟩ := hnext.behind.write hstore hholds hcell hnext.value_eq
      fun width hwidth => width_eq_of_agrees hagrees hnext.ty_eq hwidth
    exact ⟨next', hnext.reaches.trans hreaches, hat'⟩
  | integer | boolean | text | binary | call | address | deref | field | build | array | element =>
    simp [Stmt.execute] at hexecute

theorem simulated_evaluate {expression : Expr} {returns : Option Width}
    (h : (evaluate frame expression).eval body = .ok (result, last))
    (hlinked : Linked env vars body) :
    Simulated frame env vars vars body last
      (fun fuel store => (Stmt.eval expression).execute fuel returns env store) := by
  have hkeeps : body.Keeps last :=
    (extends_evaluate h hlinked.ready (Or.inl trivial)).steps.keeps fun h => h
  refine ⟨hlinked.keeps hkeeps, hkeeps.toGrows, List.prefix_rfl, ?_⟩
  intro image exit hholds hvars hexit fuel store machine completion hexecute hat
  simp only [Stmt.execute, Option.bind_eq_bind, Option.bind_eq_some_iff] at hexecute
  obtain ⟨word, hword, ⟨⟩⟩ := hexecute
  unfold evaluate at h
  split at h
  · simp [Expr.evaluate] at hword
  · simp only [Pass.eval_bind_eq_ok_iff, Pass.eval_pure_eq_ok_iff] at h
    obtain ⟨value, _, hlower, -, rfl⟩ := h
    obtain ⟨next, hnext⟩ := Image.computing_lowerExpr hvars _ none hword hlower hlinked hholds
      hat
    exact ⟨next, hnext.reaches, hnext.behind⟩

/-- A machine that stands in front of a branch to the exit leaves. -/
theorem Image.HasExit.returned {image : Image} {exit : Body} {machine : Machine}
    {value : Option Word} (hexit : image.HasExit frame exit)
    (hfetch : image.instructions[machine.position]? = some (.branch frame.exit))
    (hslots : ∀ register ∈ image.slots,
      machine.registers register = some (.address (image.address register)))
    (hty : frame.returnSlot.map Var.ty = value.map fun word => .int word.width)
    (hmemory : ∀ slot ∈ frame.returnSlot, machine.memory (image.address slot.register) = value) :
    image.Ends frame exit last machine (.returned value) :=
  ⟨_, image.reaches_branch hfetch hexit.endsWith hexit.holds, rfl, hslots, hty, hmemory⟩

theorem simulated_returnFrom {value : Option Expr} {returns : Option Width}
    (hreturns : frame.returnSlot.map Var.ty = returns.map Ty.int)
    (h : (returnFrom frame value).eval body = .ok (result, last)) (hlinked : Linked env vars body) :
    Simulated frame env vars vars body last
      (fun fuel store => (Stmt.ret value).execute fuel returns env store) := by
  cases value with
  | none =>
    cases hslot : frame.returnSlot with
    | some slot => simp [returnFrom, hslot, Except.bind] at h
    | none =>
      simp only [returnFrom, hslot] at h
      have hkeeps := keeps_emit h (by rintro _ ⟨⟩)
      refine ⟨hlinked.keeps hkeeps, hkeeps.toGrows, List.prefix_rfl, ?_⟩
      intro image exit hholds hvars hexit fuel store machine completion hexecute hat
      obtain rfl : returns = none := by
        rw [hslot] at hreturns
        exact Option.map_eq_none_iff.mp hreturns.symm
      cases hexecute
      obtain ⟨-, hfetch⟩ := hat.fetch h rfl hholds
      exact hexit.returned hfetch hat.mirrors.slots (by simp [hslot]) (by simp [hslot])
  | some expression =>
    cases hslot : frame.returnSlot with
    | none => simp [returnFrom, hslot, Except.bind] at h
    | some slot =>
      simp only [returnFrom, hslot, Pass.eval_bind_eq_ok_iff, eval_expectType_eq_ok_iff] at h
      obtain ⟨source, lowered, hlower, _, _, ⟨hagrees, rfl⟩, _, stored, hstore, hjump⟩ := h
      have hkeeps := hlinked.keeps_lowerExpr hlower
      have hkeeps' := (keeps_emit hstore (by rintro _ ⟨⟩)).trans (keeps_emit hjump (by rintro _ ⟨⟩))
      refine ⟨hlinked.keeps (hkeeps.trans hkeeps'), (hkeeps.trans hkeeps').toGrows,
        List.prefix_rfl, ?_⟩
      intro image exit hholds hvars hexit fuel store machine completion hexecute hat
      obtain ⟨width, rfl, hty⟩ : ∃ width, returns = some width ∧ slot.ty = .int width := by
        cases returns <;> simp_all
      simp only [Stmt.execute, Option.bind_eq_bind, Option.bind_eq_some_iff] at hexecute
      obtain ⟨word, hword, ⟨⟩⟩ := hexecute
      obtain ⟨next, hnext⟩ := Image.computing_lowerExpr hvars expression (some slot.ty)
        (by rw [hty]; exact hword) hlower hlinked (hholds.of_grows hkeeps'.toGrows) hat
      have hwidth := width_eq_of_agrees hagrees hnext.ty_eq hty
      obtain ⟨rfl, hreaches⟩ := hnext.behind.writeSlot hstore (hholds.of_grows (grows_emit hjump))
        (hexit.reserved slot hslot) hnext.value_eq
      have hlast := eq_append_of_eval_emit hjump (Body.isClosed_append _ _) rfl
      have hleaves : image.Ends frame exit last (next.write (image.address slot.register) word)
          (.returned (some word)) := by
        refine hexit.returned ?_ hnext.behind.mirrors.slots ?_ ?_
        · have hposition : (next.write (image.address slot.register) word).position =
              image.behind (lowered.append (.store source slot.operand)) := by
            rw [Image.behind_append, ← hnext.behind.position]
            rfl
          rw [hposition]
          exact (hlast ▸ hholds).getElem?_behind
        · simp [hslot, hty, hwidth]
        · simp [hslot, Machine.write]
      exact hleaves.of_reaches (hnext.reaches.trans hreaches)

-- ════════════════════════
-- Conditionals and loops
-- ════════════════════════

/-- A pass that lowers what the evaluator executes with `execute`. -/
def Simulating (frame : Frame) (env env' : Env) (pass : Lowering Unit)
    (execute : Nat → Store → Option Completion) : Prop :=
  ∀ ⦃vars body last result⦄, pass.eval body = .ok (result, last) → Linked env vars body →
    ∃ vars', Simulated frame env' vars vars' body last execute

theorem Image.exists_test {image : Image} {condition : Expr} {operand : Operand} {store : Store}
    {machine : Machine} {truth : Bool} (hvars : vars <+: image.cells)
    (h : (testCondition frame condition).eval body = .ok (operand, last))
    (hlinked : Linked env vars body) (hholds : image.Holds last)
    (htest : condition.test env store = some truth) (hat : image.At body store machine) :
    ∃ next word, Machine.Reaches image.instructions machine next ∧ image.At last store next ∧
      next.word? .i1 operand = some word ∧ word.truth? = some truth := by
  obtain ⟨word, hword, htruth⟩ := Option.bind_eq_some_iff.mp htest
  obtain ⟨next, hnext⟩ := computing_lowerExpr hvars condition (some .bool) hword
    (eval_testCondition h) hlinked hholds hat
  exact ⟨next, word, hnext.reaches, hnext.behind, hnext.value_eq, htruth⟩

/-- A machine at the end of an arm goes behind the conditional. -/
theorem Image.At.joinArm {image : Image} {label after : Option String} {store : Store}
    {machine : Machine} {labelled : Body} (hat : image.At body store machine)
    (h : (Lowering.joinArm label).eval body = .ok (after, last)) (hholds : image.Holds last)
    (hends : ∀ name ∈ after, labelled.EndsWith (.label name)) (hlabelled : image.Holds labelled) :
    ∃ next, Machine.Reaches image.instructions machine next ∧ image.At labelled store next := by
  rcases eval_joinArm h with ⟨hclosed, -, -⟩ | ⟨-, name, prepared, rfl, hlabel, hjump⟩
  · simp [hat.isOpen] at hclosed
  · have hcode : prepared.code = body.code := by
      rcases hlabel with ⟨-, rfl⟩ | ⟨-, hnew⟩
      · rfl
      · exact (keeps_newLabel hnew).2.2
    exact (hat.of_code_eq hcode).branch hjump hholds (hends name rfl) hlabelled

/-- An arm that has ended normally goes on behind the conditional. -/
theorem Image.Ends.joinArm {image : Image} {exit arm : Body} {label after : Option String}
    {machine : Machine} {completion : Completion}
    (hends : image.Ends frame exit arm machine completion)
    (h : (Lowering.joinArm label).eval arm = .ok (after, middle)) (hmiddle : image.Holds middle)
    (hlabel : ∀ name ∈ after, last.EndsWith (.label name)) (hlast : image.Holds last) :
    image.Ends frame exit last machine completion := by
  obtain ⟨next, hreaches, hcompleted⟩ := hends
  cases completion with
  | returned value => exact ⟨next, hreaches, hcompleted⟩
  | normal store =>
    obtain ⟨next', hreaches', hat⟩ := Image.At.joinArm hcompleted h hmiddle hlabel hlast
    exact ⟨next', hreaches.trans hreaches', hat⟩

theorem simulating_ite {condition : Expr} {positive negative : List Stmt} {returns : Option Width}
    (hpositive : Simulating frame env (Block.extend env positive) (lowerStmts frame positive)
      fun fuel store => Block.execute fuel returns env positive store)
    (hnegative : Simulating frame (Block.extend env positive)
      (Block.extend (Block.extend env positive) negative) (lowerStmts frame negative)
      fun fuel store => Block.execute fuel returns (Block.extend env positive) negative store) :
    Simulating frame env ((Stmt.ite condition positive negative).extend env)
      (lowerStmt frame (.ite condition positive negative))
      fun fuel store => (Stmt.ite condition positive negative).execute fuel returns env store := by
  intro vars body last result h hlinked
  simp only [lowerStmt, Pass.eval_bind_eq_ok_iff] at h
  obtain ⟨operand, tested, htest, onTrue, labelled, honTrue, onFalse, prepared, honFalse, _, forked,
    hfork, _, inTrue, htrue, _, doneTrue, hruns, join, joined, hjoin, _, inFalse, hfalse, _, doneFalse,
    hruns', join', joined', hjoin', hend⟩ := h
  have htested := hlinked.keeps_lowerExpr (eval_testCondition htest)
  obtain ⟨hlabelled, husedTrue, hcodeTrue⟩ := keeps_newLabel honTrue
  obtain ⟨hprepared, husedFalse, hcodeFalse⟩ := keeps_newLabel honFalse
  have hforked := keeps_emit hfork (by rintro _ ⟨⟩)
  have hinTrue := keeps_emit htrue (by
    rintro _ ⟨⟩
    exact hforked.inUse (hprepared.inUse husedTrue))
  have htoTrue := ((htested.trans (hlabelled.trans hprepared)).trans hforked).trans hinTrue
  obtain ⟨vars', hthen⟩ := hpositive hruns (hlinked.keeps htoTrue)
  obtain ⟨hjoined, -, husedJoin⟩ := keeps_joinArm hjoin
  have hinFalse := keeps_emit hfalse (by
    rintro _ ⟨⟩
    exact hjoined.inUse (hthen.grows.inUse (hinTrue.inUse (hforked.inUse husedFalse))))
  obtain ⟨vars'', helse⟩ := hnegative hruns' (hthen.linked.keeps (hjoined.trans hinFalse))
  obtain ⟨hjoined', hpassed, husedJoin'⟩ := keeps_joinArm hjoin'
  obtain ⟨hended, hends⟩ := keeps_afterwards hend (husedJoin' fun name hname =>
    helse.grows.inUse (hinFalse.inUse (husedJoin (by simp) name hname)))
  refine ⟨vars'', helse.linked.keeps (hjoined'.trans hended), ?_,
    hthen.extended.trans helse.extended, ?_⟩
  · exact (((htoTrue.toGrows.trans hthen.grows).trans (hjoined.trans hinFalse).toGrows).trans
      helse.grows).trans (hjoined'.trans hended).toGrows
  intro image exit hholds hvars hexit fuel store machine completion hexecute hat
  -- Every stage is part of the code.
  have hholdsJoined' := hholds.of_grows hended.toGrows
  have hholdsDoneFalse := hholdsJoined'.of_grows hjoined'.toGrows
  have hholdsInFalse := hholdsDoneFalse.of_grows helse.grows
  have hholdsJoined := hholdsInFalse.of_grows hinFalse.toGrows
  have hholdsDoneTrue := hholdsJoined.of_grows hjoined.toGrows
  have hholdsInTrue := hholdsDoneTrue.of_grows hthen.grows
  have hholdsForked := hholdsInTrue.of_grows hinTrue.toGrows
  have hholdsTested := hholdsForked.of_grows (hlabelled.trans (hprepared.trans hforked)).toGrows
  simp only [Stmt.execute, Option.bind_eq_bind, Option.bind_eq_some_iff] at hexecute
  obtain ⟨truth, htruth, hexecute⟩ := hexecute
  obtain ⟨next, word, hreaches, hnext, hword, hword'⟩ := Image.exists_test
    ((hthen.extended.trans helse.extended).trans hvars) htest hlinked hholdsTested htruth hat
  have hnext := hnext.of_code_eq (hcodeFalse.trans hcodeTrue)
  cases truth with
  | true =>
    obtain ⟨inside, hreaches', hinside⟩ := hnext.fork hfork hholdsForked hword hword'
      (endsWith_of_eval_emit htrue) hholdsInTrue
    have harm := hthen.ends hholdsDoneTrue (helse.extended.trans hvars) hexit hexecute hinside
    exact (harm.joinArm hjoin hholdsJoined (fun name hname => hends name (hpassed name hname))
      hholds).of_reaches (hreaches.trans hreaches')
  | false =>
    obtain ⟨inside, hreaches', hinside⟩ := hnext.fork hfork hholdsForked hword hword'
      (endsWith_of_eval_emit hfalse) hholdsInFalse
    have harm := helse.ends hholdsDoneFalse hvars hexit hexecute hinside
    exact (harm.joinArm hjoin' hholdsJoined' hends hholds).of_reaches (hreaches.trans hreaches')

/-- A machine in front of the test of a loop goes round as often as the evaluator does. -/
theorem Image.ends_iterate {image : Image} {exit inTest : Body} {test : Store → Option Bool}
    {statements : Store → Option Completion}
    (hfalse : ∀ {store machine}, image.At inTest store machine → test store = some false →
      ∃ next, Machine.Reaches image.instructions machine next ∧ image.At last store next)
    (htrue : ∀ {store machine completion}, image.At inTest store machine → test store = some true →
      statements store = some completion → image.Ends frame exit inTest machine completion) :
    ∀ {fuel store machine completion}, iterate test statements fuel store = some completion →
      image.At inTest store machine → image.Ends frame exit last machine completion := by
  intro fuel
  induction fuel with
  | zero =>
    intro store machine completion hiterate
    simp [iterate] at hiterate
  | succ fuel ih =>
    intro store machine completion hiterate hat
    simp only [iterate, Option.bind_eq_bind, Option.bind_eq_some_iff] at hiterate
    obtain ⟨truth, htruth, hiterate⟩ := hiterate
    cases truth with
    | false =>
      cases hiterate
      exact hfalse hat htruth
    | true =>
      obtain ⟨completion', hstatements, hnext⟩ := Option.bind_eq_some_iff.mp hiterate
      obtain ⟨next, hreaches, hcompleted⟩ := htrue hat htruth hstatements
      cases completion' with
      | returned value =>
        cases hnext
        exact ⟨next, hreaches, hcompleted⟩
      | normal store' => exact (ih hnext hcompleted).of_reaches hreaches

theorem simulating_loop {condition : Expr} {statements : List Stmt} {returns : Option Width}
    (hstatements : Simulating frame env (Block.extend env statements) (lowerStmts frame statements)
      fun fuel store => Block.execute fuel returns env statements store) :
    Simulating frame env ((Stmt.loop condition statements).extend env)
      (lowerStmt frame (.loop condition statements))
      fun fuel store => (Stmt.loop condition statements).execute fuel returns env store := by
  intro vars body last result h hlinked
  simp only [lowerStmt, Pass.eval_bind_eq_ok_iff] at h
  obtain ⟨test, hasTest, hnewTest, start, hasStart, hnewStart, afterwards, labelled, hnewAfter, _,
    entered, henter, _, inTest, htest, operand, tested, hcondition, _, forked, hfork, _, inLoop, hloop,
    _, doneLoop, hruns, h⟩ := h
  obtain ⟨repeated, hrepeat, hend⟩ := eval_endLoop (Pass.eval_bind_eq_ok_iff.mpr h)
  obtain ⟨hkeepsTest, husedTest, hcodeTest⟩ := keeps_newLabel hnewTest
  obtain ⟨hkeepsStart, husedStart, hcodeStart⟩ := keeps_newLabel hnewStart
  obtain ⟨hkeepsAfter, husedAfter, hcodeAfter⟩ := keeps_newLabel hnewAfter
  have hentered := keeps_emit henter (by rintro _ ⟨⟩)
  have hinTest := keeps_emit htest (by
    rintro _ ⟨⟩
    exact hentered.inUse (hkeepsAfter.inUse (hkeepsStart.inUse husedTest)))
  have htoTest := (hkeepsTest.trans (hkeepsStart.trans hkeepsAfter)).trans (hentered.trans hinTest)
  have hlinkedTest := hlinked.keeps htoTest
  have htested := hlinkedTest.keeps_lowerExpr (eval_testCondition hcondition)
  have hforked := keeps_emit hfork (by rintro _ ⟨⟩)
  have htoFork := htested.trans hforked
  have hinLoop := keeps_emit hloop (by
    rintro _ ⟨⟩
    exact htoFork.inUse (hinTest.inUse (hentered.inUse (hkeepsAfter.inUse husedStart))))
  obtain ⟨vars', hbody⟩ := hstatements hruns (hlinkedTest.keeps (htoFork.trans hinLoop))
  have hrepeated : doneLoop.Keeps repeated := by
    rcases hrepeat with ⟨-, rfl⟩ | ⟨-, hjump⟩
    · exact .refl doneLoop
    · exact keeps_emit hjump (by rintro _ ⟨⟩)
  have hended := keeps_emit hend (by
    rintro _ ⟨⟩
    exact hrepeated.inUse (hbody.grows.inUse ((htoFork.trans hinLoop).inUse
      (hinTest.inUse (hentered.inUse husedAfter)))))
  refine ⟨vars', hbody.linked.keeps (hrepeated.trans hended), ?_, hbody.extended, ?_⟩
  · exact ((htoTest.trans (htoFork.trans hinLoop)).toGrows.trans hbody.grows).trans
      (hrepeated.trans hended).toGrows
  intro image exit hholds hvars hexit fuel store machine completion hexecute hat
  have hholdsRepeated := hholds.of_grows hended.toGrows
  have hholdsDone := hholdsRepeated.of_grows hrepeated.toGrows
  have hholdsInLoop := hholdsDone.of_grows hbody.grows
  have hholdsForked := hholdsInLoop.of_grows hinLoop.toGrows
  have hholdsTested := hholdsForked.of_grows hforked.toGrows
  have hholdsTest := hholdsTested.of_grows htested.toGrows
  have hvarsTest := hbody.extended.trans hvars
  have hendsTest := endsWith_of_eval_emit htest
  obtain ⟨next, hreaches, hnext⟩ :=
    (hat.of_code_eq (hcodeAfter.trans (hcodeStart.trans hcodeTest))).branch henter
      (hholdsTest.of_grows hinTest.toGrows) hendsTest hholdsTest
  rw [Stmt.execute] at hexecute
  refine (Image.ends_iterate ?_ ?_ hexecute hnext).of_reaches hreaches
  · intro store machine hat htruth
    obtain ⟨next, word, hreaches, hnext, hword, hword'⟩ := Image.exists_test hvarsTest hcondition
      hlinkedTest hholdsTested htruth hat
    obtain ⟨next', hreaches', hnext'⟩ := hnext.fork hfork hholdsForked hword hword'
      (endsWith_of_eval_emit hend) hholds
    exact ⟨next', hreaches.trans hreaches', hnext'⟩
  · intro store machine completion hat htruth hexecute
    obtain ⟨next, word, hreaches, hnext, hword, hword'⟩ := Image.exists_test hvarsTest hcondition
      hlinkedTest hholdsTested htruth hat
    obtain ⟨next', hreaches', hnext'⟩ := hnext.fork hfork hholdsForked hword hword'
      (endsWith_of_eval_emit hloop) hholdsInLoop
    obtain ⟨done, hreachesDone, hcompleted⟩ := hbody.ends hholdsDone hvars hexit hexecute hnext'
    have hreaches := (hreaches.trans hreaches').trans hreachesDone
    cases completion with
    | returned value => exact ⟨done, hreaches, hcompleted⟩
    | normal store' =>
      rcases hrepeat with ⟨hclosed, -⟩ | ⟨-, hjump⟩
      · simp [hcompleted.isOpen] at hclosed
      · obtain ⟨again, hreaches', hagain⟩ := hcompleted.branch hjump hholdsRepeated hendsTest hholdsTest
        exact ⟨again, hreaches.trans hreaches', hagain⟩

mutual

theorem simulating_lowerStmt {returns : Option Width}
    (hreturns : frame.returnSlot.map Var.ty = returns.map Ty.int) :
    ∀ (statement : Stmt) (env : Env), Simulating frame env (statement.extend env)
      (lowerStmt frame statement) fun fuel store => statement.execute fuel returns env store
  | .bind name ty expression, env => by
    intro vars body last result h hlinked
    rw [lowerStmt] at h
    exact simulated_declare h hlinked
  | .assign target expression, env => by
    intro vars body last result h hlinked
    rw [lowerStmt] at h
    exact ⟨vars, simulated_assign h hlinked⟩
  | .eval expression, env => by
    intro vars body last result h hlinked
    rw [lowerStmt] at h
    exact ⟨vars, simulated_evaluate h hlinked⟩
  | .ret value, env => by
    intro vars body last result h hlinked
    rw [lowerStmt] at h
    exact ⟨vars, simulated_returnFrom hreturns h hlinked⟩
  | .directive text, env => by
    intro vars body last result h hlinked
    rw [lowerStmt, Pass.eval_report_eq_ok_iff] at h
    subst h
    simpa only [Stmt.execute] using ⟨vars, simulated_nothing hlinked⟩
  | .ite condition positive negative, env =>
    simulating_ite (simulating_lowerStmts hreturns positive env)
      (simulating_lowerStmts hreturns negative (Block.extend env positive))
  | .loop condition statements, env =>
    simulating_loop (simulating_lowerStmts hreturns statements env)

/-- Lowering statements is simulated by their execution. -/
theorem simulating_lowerStmts {returns : Option Width}
    (hreturns : frame.returnSlot.map Var.ty = returns.map Ty.int) :
    ∀ (statements : List Stmt) (env : Env), Simulating frame env (Block.extend env statements)
      (lowerStmts frame statements) fun fuel store => Block.execute fuel returns env statements store
  | [], env => by
    intro vars body last result h hlinked
    rw [lowerStmts] at h
    obtain ⟨-, rfl⟩ := Pass.eval_pure_eq_ok_iff.mp h
    simpa only [Block.execute] using ⟨vars, simulated_nothing hlinked⟩
  | statement :: rest, env => by
    intro vars body last result h hlinked
    simp only [lowerStmts, Pass.eval_bind_eq_ok_iff] at h
    obtain ⟨_, middle, hfirst, hrest⟩ := h
    obtain ⟨vars', hstatement⟩ := simulating_lowerStmt hreturns statement env hfirst hlinked
    obtain ⟨vars'', hstatements⟩ := simulating_lowerStmts hreturns rest (statement.extend env) hrest
      hstatement.linked
    exact ⟨vars'', hstatement.andThen hstatements⟩

end

end ThreeAddress
