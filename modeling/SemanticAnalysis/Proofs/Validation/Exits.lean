import SemanticAnalysis.Validation

/-!
# Paths that fall off the end

`Stmt.exits` decides from the text alone that control never comes out at the end of a statement. Here
the text gets its control flow: `Code.Runs c o` says that some run of `c` ends with `o`, where a
condition may turn out either way, a loop may go round any number of times, any expression may throw
and any clause may catch.

1. The rule for `do … while` is too generous: its body counts as exiting as soon as one statement in it
   does, also when a `break` in front of that statement leaves the loop
   (`Validation.loopFunction_falls_off`).
2. That is the only gap. Where no `do … while` has a jump of its own in its body (`Stmt.steady`), code
   that counts as exiting never comes to its end (`Code.Runs.ne_done`).
3. So an accepted function or lambda that has a value to give and no such loop never falls off its end
   (`Validation.accepted_ne_done`).
-/

namespace SemanticAnalysis

/-! ## Control flow -/

/-- How a run of a statement ends. -/
inductive Ending where
  /-- Control comes out at the end. -/
  | done
  | broke
  | continued
  | returned
  | threw
deriving DecidableEq, Repr

namespace Ending

/-- A jump for the loop around. -/
def isJump : Ending → Bool
  | broke | continued => true
  | _ => false

/-- The loop around goes on to its next test. -/
def goesOn : Ending → Bool
  | done | continued => true
  | _ => false

/-- The loop around is left with it. -/
def passesLoop : Ending → Bool
  | returned | threw => true
  | _ => false

/-- An evaluation comes to its end or throws. -/
def ofValue : Ending → Bool
  | done | threw => true
  | _ => false

variable {o : Ending}

theorem isJump_of_ofValue (h : o.ofValue) : o.isJump = false := by
  cases o <;> first | rfl | cases h

theorem isJump_of_passesLoop (h : o.passesLoop) : o.isJump = false := by
  cases o <;> first | rfl | cases h

theorem isJump_of_goesOn (h : o.goesOn) (hne : o ≠ .done) : o.isJump = true := by
  cases o <;> first | rfl | contradiction

end Ending

/-- What can be run: a statement, statements one after the other, and a loop with a given body, from its
test or from its body on. -/
inductive Code where
  | stmt (s : Stmt)
  | row (statements : List Stmt)
  | laps (body : Stmt)
  | lap (body : Stmt)

/-- Some run of the code ends so. -/
inductive Code.Runs : Code → Ending → Prop
  | expr {node e o} : o.ofValue → Runs (.stmt (.expr node e)) o
  | declare {d o} : o.ofValue → Runs (.stmt (.declare d)) o
  | delete {node e persistent o} : o.ofValue → Runs (.stmt (.delete node e persistent)) o
  | block {b o} : Runs (.row b.statements) o → Runs (.stmt (.block b)) o
  | space {node name visibility body o} : Runs (.row body) o →
      Runs (.stmt (.space node name visibility body)) o
  | returns {node value} : Runs (.stmt (.ret node value)) .returned
  /-- Working out the value of a `return` throws. -/
  | returnThrows {node e} : Runs (.stmt (.ret node (some e))) .threw
  | raise {node e} : Runs (.stmt (.raise node e)) .threw
  | leave {node} : Runs (.stmt (.leave node)) .broke
  | next {node} : Runs (.stmt (.next node)) .continued
  | conditionThrows {node c yes no} : Runs (.stmt (.ifElse node c yes no)) .threw
  | yes {node c yes no o} : Runs (.stmt yes) o → Runs (.stmt (.ifElse node c yes no)) o
  | no {node c yes no o} : Runs (.stmt no) o → Runs (.stmt (.ifElse node c yes (some no))) o
  | noElse {node c yes} : Runs (.stmt (.ifElse node c yes none)) .done
  | whileLoop {node c body o} : Runs (.laps body) o → Runs (.stmt (.loop node c body false)) o
  | doWhile {node c body o} : Runs (.lap body) o → Runs (.stmt (.loop node c body true)) o
  | forLoop {node c update body o} : Runs (.laps body) o →
      Runs (.stmt (.forLoop node none c update body)) o
  | forInit {node init c update body o} : Runs (.stmt init) .done → Runs (.laps body) o →
      Runs (.stmt (.forLoop node (some init) c update body)) o
  | forInitEnds {node init c update body o} : Runs (.stmt init) o → o ≠ .done →
      Runs (.stmt (.forLoop node (some init) c update body)) o
  | forEach {node name ty iterable body o} : Runs (.laps body) o →
      Runs (.stmt (.forEach node name ty iterable body)) o
  /-- No clause catches, or there is nothing to catch. -/
  | attempt {node body catches o} : Runs (.row body.statements) o →
      Runs (.stmt (.tryCatch node body catches)) o
  | caught {node body catches clause o} : Runs (.row body.statements) .threw → clause ∈ catches →
      Runs (.row clause.body.statements) o → Runs (.stmt (.tryCatch node body catches)) o
  | function {d} : Runs (.stmt (.function d)) .done
  | cls {d} : Runs (.stmt (.cls d)) .done
  | importing {node d} : Runs (.stmt (.importing node d)) .done
  | exporting {node d} : Runs (.stmt (.exporting node d)) .done
  | aliasing {node d} : Runs (.stmt (.aliasing node d)) .done
  | nil : Runs (.row []) .done
  | step {s rest o} : Runs (.stmt s) .done → Runs (.row rest) o → Runs (.row (s :: rest)) o
  | stop {s rest o} : Runs (.stmt s) o → o ≠ .done → Runs (.row (s :: rest)) o
  | testFails {body} : Runs (.laps body) .done
  /-- The test, or what is worked out between two laps, throws. -/
  | testThrows {body} : Runs (.laps body) .threw
  | enter {body o} : Runs (.lap body) o → Runs (.laps body) o
  | again {body e o} : Runs (.stmt body) e → e.goesOn → Runs (.laps body) o → Runs (.lap body) o
  | leaveLoop {body} : Runs (.stmt body) .broke → Runs (.lap body) .done
  | passLoop {body o} : Runs (.stmt body) o → o.passesLoop → Runs (.lap body) o

/-! ## Loops that are left by a jump -/

mutual

/-- The statement has a `break` or `continue` for a loop around it. -/
def Stmt.jumps : Stmt → Bool
  | .leave _ | .next _ => true
  | .block b => blockJumps b
  | .space _ _ _ body => anyJumps body
  | .ifElse _ _ yes no => yes.jumps || optionJumps no
  | .forLoop _ init _ _ _ => optionJumps init
  | .tryCatch _ body catches => blockJumps body || anyClauseJumps catches
  | _ => false

def Stmt.anyJumps : List Stmt → Bool
  | [] => false
  | s :: rest => s.jumps || anyJumps rest

def Stmt.blockJumps : Block Stmt → Bool
  | ⟨_, statements⟩ => anyJumps statements

def Stmt.optionJumps : Option Stmt → Bool
  | none => false
  | some s => s.jumps

def Stmt.anyClauseJumps : List (CatchClause Stmt) → Bool
  | [] => false
  | c :: rest => clauseJumps c || anyClauseJumps rest

def Stmt.clauseJumps : CatchClause Stmt → Bool
  | ⟨_, _, _, body⟩ => blockJumps body

end

mutual

/-- No `do … while` that the statement runs has a jump of its own in its body. -/
def Stmt.steady : Stmt → Bool
  | .block b => blockSteady b
  | .ifElse _ _ yes no => yes.steady && optionSteady no
  | .loop _ _ body tail => !(tail && body.jumps) && body.steady
  | .tryCatch _ body catches => blockSteady body && clausesSteady catches
  | _ => true

def Stmt.allSteady : List Stmt → Bool
  | [] => true
  | s :: rest => s.steady && allSteady rest

def Stmt.blockSteady : Block Stmt → Bool
  | ⟨_, statements⟩ => allSteady statements

def Stmt.optionSteady : Option Stmt → Bool
  | none => true
  | some s => s.steady

def Stmt.clausesSteady : List (CatchClause Stmt) → Bool
  | [] => true
  | c :: rest => clauseSteady c && clausesSteady rest

def Stmt.clauseSteady : CatchClause Stmt → Bool
  | ⟨_, _, _, body⟩ => blockSteady body

end

namespace Stmt

theorem blockExits_eq (b : Block Stmt) : blockExits b = anyExits b.statements := by
  rw [blockExits]

theorem blockJumps_eq (b : Block Stmt) : blockJumps b = anyJumps b.statements := by
  rw [blockJumps]

theorem blockSteady_eq (b : Block Stmt) : blockSteady b = allSteady b.statements := by
  rw [blockSteady]

theorem allExit_eq (catches : List (CatchClause Stmt)) :
    allExit catches = catches.all fun c => anyExits c.body.statements := by
  induction catches with
  | nil => rfl
  | cons c rest ih => rw [allExit, clauseExits, blockExits_eq, ih, List.all_cons]

theorem anyClauseJumps_eq (catches : List (CatchClause Stmt)) :
    anyClauseJumps catches = catches.any fun c => anyJumps c.body.statements := by
  induction catches with
  | nil => rfl
  | cons c rest ih => rw [anyClauseJumps, clauseJumps, blockJumps_eq, ih, List.any_cons]

theorem clausesSteady_eq (catches : List (CatchClause Stmt)) :
    clausesSteady catches = catches.all fun c => allSteady c.body.statements := by
  induction catches with
  | nil => rfl
  | cons c rest ih => rw [clausesSteady, clauseSteady, blockSteady_eq, ih, List.all_cons]

end Stmt

/-! ## Bodies that do not jump -/

namespace Code

/-- A run of the code may end with a jump for a loop around it. -/
def jumps : Code → Bool
  | stmt s => s.jumps
  | row l => Stmt.anyJumps l
  | laps _ | lap _ => false

/-- The code counts as letting nothing through. -/
def exits : Code → Bool
  | stmt s | lap s => s.exits
  | row l => Stmt.anyExits l
  | laps _ => false

/-- No `do … while` that the code runs has a jump of its own in its body. Only such a loop starts with a
lap. -/
def steady : Code → Bool
  | stmt s => s.steady
  | row l => Stmt.allSteady l
  | laps _ => true
  | lap s => !s.jumps && s.steady

attribute [local grind =] jumps exits steady Stmt.jumps Stmt.anyJumps Stmt.optionJumps
  Stmt.blockJumps_eq Stmt.anyClauseJumps_eq Stmt.exits Stmt.anyExits Stmt.optionExits
  Stmt.blockExits_eq Stmt.allExit_eq Stmt.steady Stmt.allSteady Stmt.optionSteady
  Stmt.blockSteady_eq Stmt.clausesSteady_eq

namespace Runs

variable {c : Code} {o : Ending}

/-- Without a `break` or `continue` for a loop around, no run ends with one. -/
theorem not_jump (h : c.Runs o) (hc : c.jumps = false) : o.isJump = false := by
  induction h with
  | expr ho | declare ho | delete ho => exact Ending.isJump_of_ofValue ho
  | passLoop _ ho => exact Ending.isJump_of_passesLoop ho
  | leave | next => cases hc
  | block _ ih | space _ ih | yes _ ih | no _ ih | attempt _ ih => exact ih (by grind)
  | forInitEnds _ _ ih | stop _ _ ih => exact ih (by grind)
  | whileLoop _ ih | doWhile _ ih | forLoop _ ih | forEach _ ih | enter _ ih => exact ih rfl
  | forInit _ _ _ ih | again _ _ _ _ ih => exact ih rfl
  | step _ _ _ ih => exact ih (by grind)
  | caught _ hmem _ _ ih => exact ih (by grind)
  | _ => rfl

/-- Code that counts as letting nothing through does so, unless it leaves a `do … while` by a jump. -/
theorem ne_done (h : c.Runs o) (hc : c.steady) (he : c.exits) : o ≠ .done := by
  induction h with
  | returns | returnThrows | raise | conditionThrows => nofun
  | block _ ih | yes _ ih | no _ ih | attempt _ ih => exact ih (by grind) (by grind)
  | caught _ hmem _ _ ih => exact ih (by grind) (by grind)
  | doWhile _ ih => exact ih (by grind) (by grind)
  -- The statement that exits is this one, which then has not come to its end, or one behind it.
  | step _ _ ih ih' => grind
  | stop _ hne => exact hne
  -- The body exits and does not jump, so it neither comes to its end nor goes on to the test.
  | again run hgo _ ih =>
    have hdone := ih (by grind) (by grind)
    have hjump := run.not_jump (by grind)
    rw [Ending.isJump_of_goesOn hgo hdone] at hjump
    cases hjump
  | leaveLoop run =>
    have hjump := run.not_jump (by grind)
    cases hjump
  | passLoop _ ho => rintro rfl; cases ho
  | _ => grind

end Runs

end Code

/-! ## Accepted functions -/

/-- A computation that gives a result gives one at each of its steps. -/
theorem bind_eq_ok {ε α β : Type} {x : Except ε α} {g : α → Except ε β} {b : β} :
    x >>= g = .ok b ↔ ∃ a, x = .ok a ∧ g a = .ok b := by
  cases x with
  | error e => exact ⟨nofun, nofun⟩
  | ok a => exact ⟨fun h => ⟨a, rfl, h⟩, fun ⟨_, ha, h⟩ => by cases ha; exact h⟩

theorem forM_eq_ok {ε α : Type} {l : List α} {g : α → Except ε Unit} (h : l.forM g = .ok ()) :
    ∀ a ∈ l, g a = .ok () := by
  induction l with
  | nil => nofun
  | cons b rest ih =>
    obtain ⟨⟨⟩, hb, hrest⟩ := bind_eq_ok.1 h
    exact List.forall_mem_cons.2 ⟨hb, ih hrest⟩

namespace Validation

theorem checkExits_eq_ok {site : Site} {position : Position} {needed exits : Bool} {what : String} :
    checkExits site position needed exits what = .ok () ↔ (needed → exits) := by
  cases needed <;> cases exits <;> simp [checkExits, broken] <;> rfl

variable {f : Findings} {site : Site} {node : Node} {body : Block Stmt}

/-- A steady block that counts as exiting never comes to its end. -/
theorem block_ne_done (steady : Stmt.blockSteady body) (exits : Stmt.blockExits body) :
    ¬ (Code.row body.statements).Runs .done := by
  rw [Stmt.blockSteady_eq] at steady
  rw [Stmt.blockExits_eq] at exits
  exact fun run => run.ne_done steady exits rfl

/-- An accepted function has passed the check of its paths at each of its sites. -/
theorem exits_of_function {d : FunctionDef} {declared : FunctionDetail} {inner : Site}
    {found : FunctionDetail}
    (accepted : function f site d = .ok ())
    (hdeclared : f.functionDetail site d.node = .ok declared)
    (hsite : inner ∈ f.sites site d.node declared.isTemplate)
    (hfound : f.functionDetail inner d.node = .ok found) :
    f.givesValue found.function d.role → d.body.all Stmt.blockExits := by
  obtain ⟨dnode, name, role, generics, params, result, received, body, keywords, visibility,
    attributes⟩ := d
  rw [function, hdeclared] at accepted
  have here := forM_eq_ok accepted inner hsite
  obtain ⟨_, hsame, here⟩ := bind_eq_ok.1 here
  cases hsame.symm.trans hfound
  obtain ⟨_, _, here⟩ := bind_eq_ok.1 here
  obtain ⟨_, _, here⟩ := bind_eq_ok.1 here
  obtain ⟨_, _, here⟩ := bind_eq_ok.1 here
  exact checkExits_eq_ok.1 here

/-- A function that has a value to give, whose body leaves no
`do … while` by a jump and which is accepted, never comes to the end of its body. -/
theorem function_ne_done {d : FunctionDef} {declared found : FunctionDetail} {inner : Site}
    (accepted : function f site d = .ok ())
    (hdeclared : f.functionDetail site d.node = .ok declared)
    (hsite : inner ∈ f.sites site d.node declared.isTemplate)
    (hfound : f.functionDetail inner d.node = .ok found)
    (hvalue : f.givesValue found.function d.role)
    (hbody : d.body = some body) (steady : Stmt.blockSteady body) :
    ¬ (Code.row body.statements).Runs .done := by
  have hexits := exits_of_function accepted hdeclared hsite hfound hvalue
  rw [hbody] at hexits
  exact block_ne_done steady hexits

/-- Nor does such a lambda. -/
theorem lambda_ne_done {params : List (Param Expr)} {result : Option TypeExpr} {info : ExprInfo}
    {item : ItemId}
    (accepted : expr f site (.lambda node params result body) = .ok ())
    (hfound : f.detail site node "lambda" = .ok (.lambda info item))
    (hvalue : f.lambdaGivesValue item) (steady : Stmt.blockSteady body) :
    ¬ (Code.row body.statements).Runs .done := by
  rw [expr, hfound] at accepted
  obtain ⟨_, ⟨⟩, accepted⟩ := bind_eq_ok.1 accepted
  obtain ⟨_, ⟨⟩, accepted⟩ := bind_eq_ok.1 accepted
  obtain ⟨_, _, accepted⟩ := bind_eq_ok.1 accepted
  obtain ⟨_, _, accepted⟩ := bind_eq_ok.1 accepted
  exact block_ne_done steady (checkExits_eq_ok.1 accepted hvalue)

/-- The block is the body of a function or lambda that is accepted and has a value to give. -/
inductive Accepts (f : Findings) (site : Site) (body : Block Stmt) : Prop
  | function {d : FunctionDef} {declared found : FunctionDetail} {inner : Site}
      (accepted : function f site d = .ok ())
      (hdeclared : f.functionDetail site d.node = .ok declared)
      (hsite : inner ∈ f.sites site d.node declared.isTemplate)
      (hfound : f.functionDetail inner d.node = .ok found)
      (hvalue : f.givesValue found.function d.role) (hbody : d.body = some body)
  | lambda {node : Node} {params : List (Param Expr)} {result : Option TypeExpr} {info : ExprInfo} {item : ItemId}
      (accepted : expr f site (.lambda node params result body) = .ok ())
      (hfound : f.detail site node "lambda" = .ok (.lambda info item)) (hvalue : f.lambdaGivesValue item)

/-- **Accepted bodies do not fall off.** Statements that leave no `do … while` by a jump never come to their end if
they count as exiting, and so if they are the body of an accepted function or lambda that has a value to give. -/
theorem accepted_ne_done (steady : Stmt.blockSteady body) (h : Stmt.blockExits body ∨ Accepts f site body) :
    ¬ (Code.row body.statements).Runs .done := by
  rcases h with exits | ⟨accepted, hdeclared, hsite, hfound, hvalue, hbody⟩ | ⟨accepted, hfound, hvalue⟩
  · exact block_ne_done steady exits
  · exact function_ne_done accepted hdeclared hsite hfound hvalue hbody steady
  · exact lambda_ne_done accepted hfound hvalue steady

/-! ## One loop, with and without a jump -/

/-- A node of the function below. -/
def loopNode (n : Nat) : Node := { id := .written n }

/-- `fn f(): int { do { … } while (true) }` -/
def loopFunction (statements : List Stmt) : FunctionDef where
  node := loopNode 0
  name := { name := "f" }
  body := some ⟨loopNode 1, [.loop (loopNode 2) (.literal (loopNode 3) (.bool true))
    (.block ⟨loopNode 4, statements⟩) true]⟩

/-- What an analysis finds in that function: every node has its detail, and the function gives an
`int`. -/
def loopFindings : Findings where
  table := { items := #[{
    name := "f", scope := ⟨0⟩, module := ⟨0⟩
    entity := .fn { scope := ⟨1⟩, returnType := .int } }] }
  details := ⟨#[
    (⟨⟨0⟩, .written 0⟩, .function { function := ⟨0⟩ }),
    (⟨⟨0⟩, .written 1⟩, .block ⟨1⟩),
    (⟨⟨0⟩, .written 2⟩, .loop ⟨2⟩),
    (⟨⟨0⟩, .written 3⟩, .literal (.rvalue .bool)),
    (⟨⟨0⟩, .written 4⟩, .block ⟨3⟩),
    (⟨⟨0⟩, .written 5⟩, .statement ⟨3⟩),
    (⟨⟨0⟩, .written 6⟩, .ret ⟨0⟩ .int)]⟩
  instanceFrames := []

/-- **The missed jump.** `fn f(): int { do { break; return; } while (true) }` is accepted, has a value
to give, and falls off its end. -/
theorem loopFunction_falls_off :
    let d := loopFunction [.leave (loopNode 5), .ret (loopNode 6) none]
    function loopFindings { frame := ⟨0⟩ } d = .ok () ∧ loopFindings.givesValue ⟨0⟩ d.role ∧
      ∃ body ∈ d.body, (Code.row body.statements).Runs .done := by
  refine ⟨rfl, rfl, _, rfl, ?_⟩
  exact .step (.doWhile (.leaveLoop (.block (.stop .leave nofun)))) .nil

theorem accepted_ne_done_loopFunction :
    let d := loopFunction [.ret (loopNode 6) none]
    ∃ body ∈ d.body, Accepts loopFindings { frame := ⟨0⟩ } body ∧ Stmt.blockSteady body ∧
      ¬ (Code.row body.statements).Runs .done := by
  intro d
  have accepted : function loopFindings { frame := ⟨0⟩ } d = .ok () := rfl
  refine ⟨_, rfl, ?_⟩
  have haccepts := Accepts.function accepted rfl (.head _) rfl rfl rfl
  exact ⟨haccepts, rfl, accepted_ne_done rfl (.inr haccepts)⟩

end Validation

end SemanticAnalysis
