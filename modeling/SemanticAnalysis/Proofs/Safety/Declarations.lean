import SemanticAnalysis.Proofs.Permit.Nodes

/-!
# What trees declare

An analysis files items under nodes of a tree: functions under the nodes of function declarations, and
variables, classes, namespaces and aliases under others. `Stmt.decls` lists these nodes, each with whether it
declares a function. In a tree whose nodes are distinct no node declares two things (`Root.decls_fit`), so
whoever asks for the function of a node gets no item of another kind.
-/

namespace SemanticAnalysis

/-- A node under which an item is filed. -/
structure Declaring where
  node : NodeId
  /-- The item is a function. -/
  isFunction : Bool
deriving DecidableEq

/-- What files a function under a node. -/
def Node.ofFunction (n : Node) : Declaring := ⟨n.id, true⟩

/-- What files an item of another kind under a node. -/
def Node.ofOther (n : Node) : Declaring := ⟨n.id, false⟩

mutual

/-- The declaring nodes inside an expression. -/
def Expr.decls : Expr → List Declaring
  | .literal .. | .name .. | .thisRef _ | .superRef _ | .sizeOfType .. => []
  | .member _ object .. => object.decls
  | .call _ callee args => callee.decls ++ Expr.argumentDecls args
  | .new _ _ args _ => Expr.argumentDecls args
  | .binary _ _ left right => left.decls ++ right.decls
  | .unary _ _ operand => operand.decls
  | .assign _ _ target value => target.decls ++ value.decls
  | .conditional _ condition yes no => condition.decls ++ (yes.decls ++ no.decls)
  | .cast _ value _ => value.decls
  | .index _ object index => object.decls ++ index.decls
  | .lambda _ params _ body => Expr.paramDecls params ++ Stmt.blockDecls body
  | .await _ value => value.decls
  | .yield _ value => Expr.optionDecls value

def Expr.optionDecls : Option Expr → List Declaring
  | none => []
  | some e => e.decls

def Expr.argumentDecls : List (Argument Expr) → List Declaring
  | [] => []
  | ⟨_, value⟩ :: rest => value.decls ++ Expr.argumentDecls rest

def Expr.paramDecls : List (Param Expr) → List Declaring
  | [] => []
  | ⟨node, _, _, defaultValue, _⟩ :: rest =>
    node.ofOther :: (Expr.optionDecls defaultValue ++ Expr.paramDecls rest)

/-- The declaring nodes of a statement. -/
def Stmt.decls : Stmt → List Declaring
  | .expr _ e => e.decls
  | .declare decl => Stmt.variableDecls decl
  | .block b => Stmt.blockDecls b
  | .ret _ value => Expr.optionDecls value
  | .ifElse _ condition yes no => condition.decls ++ (yes.decls ++ Stmt.optionDecls no)
  | .loop _ condition body _ => condition.decls ++ body.decls
  | .forLoop _ init condition update body =>
    Stmt.optionDecls init ++
      (Expr.optionDecls condition ++ (Expr.optionDecls update ++ body.decls))
  | .forEach _ _ _ iterable body => iterable.decls ++ body.decls
  | .leave _ | .next _ | .importing .. | .exporting .. => []
  | .aliasing node _ => [node.ofOther]
  | .raise _ value | .delete _ value _ => value.decls
  | .tryCatch _ body catches => Stmt.blockDecls body ++ Stmt.catchDecls catches
  | .function decl => Stmt.functionDecls decl
  | .cls decl => Stmt.classDecls decl
  | .space node _ _ body => node.ofOther :: Stmt.rowDecls body

def Stmt.optionDecls : Option Stmt → List Declaring
  | none => []
  | some s => s.decls

/-- The declaring nodes of some statements. -/
def Stmt.rowDecls : List Stmt → List Declaring
  | [] => []
  | s :: rest => s.decls ++ Stmt.rowDecls rest

def Stmt.blockDecls : Block Stmt → List Declaring
  | ⟨_, statements⟩ => Stmt.rowDecls statements

def Stmt.bodyDecls : Option (Block Stmt) → List Declaring
  | none => []
  | some b => Stmt.blockDecls b

def Stmt.variableDecls : VariableDecl Expr → List Declaring
  | ⟨node, _, _, initializer, _, _, _, _⟩ => node.ofOther :: Expr.optionDecls initializer

def Stmt.catchDecls : List (CatchClause Stmt) → List Declaring
  | [] => []
  | ⟨_, _, _, body⟩ :: rest => Stmt.blockDecls body ++ Stmt.catchDecls rest

def Stmt.functionDecls : FunctionDecl Expr Stmt → List Declaring
  | ⟨node, _, _, _, params, _, _, body, _, _, _⟩ =>
    node.ofFunction :: (Expr.paramDecls params ++ Stmt.bodyDecls body)

def Stmt.fieldDecls : FieldDecl Expr → List Declaring
  | ⟨node, _, _, initializer, _, _, _, _⟩ => node.ofOther :: Expr.optionDecls initializer

def Stmt.memberDecl : Member Expr Stmt → List Declaring
  | .field f => Stmt.fieldDecls f
  | .function f => Stmt.functionDecls f

def Stmt.memberDecls : List (Member Expr Stmt) → List Declaring
  | [] => []
  | m :: rest => Stmt.memberDecl m ++ Stmt.memberDecls rest

def Stmt.classDecls : ClassDecl Expr Stmt → List Declaring
  | ⟨node, _, _, _, members, _, _, _, _⟩ => node.ofOther :: Stmt.memberDecls members

end

/-- The declaring nodes of a module tree. -/
def Root.decls (r : Root) : List Declaring := Stmt.rowDecls r.statements

/-! ## Parts -/

section Parts

variable {decl : FunctionDef} {field : FieldDecl Expr} {cls : ClassDef}

theorem Stmt.functionDecls_eq (decl : FunctionDef) : Stmt.functionDecls decl =
    decl.node.ofFunction :: (Expr.paramDecls decl.params ++ Stmt.bodyDecls decl.body) := by
  cases decl
  rw [Stmt.functionDecls]

theorem Stmt.fieldDecls_eq (field : FieldDecl Expr) : Stmt.fieldDecls field =
    field.node.ofOther :: Expr.optionDecls field.initializer := by
  cases field
  rw [Stmt.fieldDecls]

theorem Stmt.variableDecls_eq (decl : VariableDecl Expr) : Stmt.variableDecls decl =
    decl.node.ofOther :: Expr.optionDecls decl.initializer := by
  cases decl
  rw [Stmt.variableDecls]

theorem Stmt.classDecls_eq (decl : ClassDef) : Stmt.classDecls decl =
    decl.node.ofOther :: Stmt.memberDecls decl.members := by
  cases decl
  rw [Stmt.classDecls]

theorem Stmt.blockDecls_eq (b : Block Stmt) : Stmt.blockDecls b = Stmt.rowDecls b.statements := by
  cases b
  rw [Stmt.blockDecls]

theorem Expr.decls_subset_of_argument {args : List (Argument Expr)} {a : Argument Expr}
    (ha : a ∈ args) : a.value.decls ⊆ Expr.argumentDecls args := by
  induction args with
  | nil => cases ha
  | cons b rest ih =>
    rw [Expr.argumentDecls]
    rcases List.mem_cons.1 ha with rfl | ha
    · exact List.subset_append_left ..
    · exact List.subset_append_of_subset_right _ (ih ha)

/-- A parameter files its variable and holds its default value. -/
theorem Expr.decls_subset_of_param {params : List (Param Expr)} {p : Param Expr} (hp : p ∈ params) :
    p.node.ofOther :: Expr.optionDecls p.defaultValue ⊆ Expr.paramDecls params := by
  induction params with
  | nil => cases hp
  | cons q rest ih =>
    rw [Expr.paramDecls, ← List.cons_append]
    rcases List.mem_cons.1 hp with rfl | hp
    · exact List.subset_append_left ..
    · exact List.subset_append_of_subset_right _ (ih hp)

theorem Stmt.decls_subset_of_mem {row : List Stmt} {s : Stmt} (hs : s ∈ row) :
    s.decls ⊆ Stmt.rowDecls row := by
  induction row with
  | nil => cases hs
  | cons t rest ih =>
    rw [Stmt.rowDecls]
    rcases List.mem_cons.1 hs with rfl | hs
    · exact List.subset_append_left ..
    · exact List.subset_append_of_subset_right _ (ih hs)

theorem Stmt.decls_subset_of_catch {catches : List (CatchClause Stmt)} {c : CatchClause Stmt}
    (hc : c ∈ catches) : Stmt.blockDecls c.body ⊆ Stmt.catchDecls catches := by
  induction catches with
  | nil => cases hc
  | cons d rest ih =>
    rw [Stmt.catchDecls]
    rcases List.mem_cons.1 hc with rfl | hc
    · exact List.subset_append_left ..
    · exact List.subset_append_of_subset_right _ (ih hc)

theorem Stmt.decls_subset_of_member {members : List (Member Expr Stmt)} {m : Member Expr Stmt}
    (hm : m ∈ members) : Stmt.memberDecl m ⊆ Stmt.memberDecls members := by
  induction members with
  | nil => cases hm
  | cons m' rest ih =>
    rw [Stmt.memberDecls]
    rcases List.mem_cons.1 hm with rfl | hm
    · exact List.subset_append_left ..
    · exact List.subset_append_of_subset_right _ (ih hm)

theorem Stmt.decls_subset_of_field (hfield : field ∈ cls.fields) :
    Stmt.fieldDecls field ⊆ Stmt.classDecls cls := by
  rw [Stmt.classDecls_eq]
  refine List.subset_cons_of_subset _ ?_
  obtain ⟨m, hm, heq⟩ := List.mem_filterMap.1 hfield
  cases m with
  | field f =>
    cases heq
    exact (Stmt.memberDecl.eq_1 field).symm ▸ Stmt.decls_subset_of_member hm
  | function f => cases heq

theorem Stmt.decls_subset_of_function (hdecl : decl ∈ cls.functions) :
    Stmt.functionDecls decl ⊆ Stmt.classDecls cls := by
  rw [Stmt.classDecls_eq]
  refine List.subset_cons_of_subset _ ?_
  obtain ⟨m, hm, heq⟩ := List.mem_filterMap.1 hdecl
  cases m with
  | field f => cases heq
  | function f =>
    cases heq
    exact (Stmt.memberDecl.eq_2 decl).symm ▸ Stmt.decls_subset_of_member hm

end Parts

/-! ## Distinct nodes -/

/-- The nodes of some declarations, in order. -/
def nodesOf (ds : List Declaring) : List NodeId := ds.map (·.node)

theorem nodesOf_append (ds ds' : List Declaring) : nodesOf (ds ++ ds') = nodesOf ds ++ nodesOf ds' :=
  List.map_append

theorem nodesOf_cons (d : Declaring) (ds : List Declaring) : nodesOf (d :: ds) = d.node :: nodesOf ds :=
  rfl

mutual

theorem Expr.nodesOf_decls_sublist : ∀ e : Expr, (nodesOf e.decls).Sublist e.ids
  | .literal .. | .name .. | .thisRef _ | .superRef _ | .sizeOfType .. => by
    rw [Expr.decls]
    exact List.nil_sublist _
  | .member _ object .. => by
    rw [Expr.decls, Expr.ids]
    exact (Expr.nodesOf_decls_sublist object).cons _
  | .call _ callee args => by
    rw [Expr.decls, Expr.ids, nodesOf_append]
    exact ((Expr.nodesOf_decls_sublist callee).append (Expr.nodesOf_argumentDecls_sublist args)).cons _
  | .new _ _ args _ => by
    rw [Expr.decls, Expr.ids]
    exact (Expr.nodesOf_argumentDecls_sublist args).cons _
  | .binary _ _ left right => by
    rw [Expr.decls, Expr.ids, nodesOf_append]
    exact ((Expr.nodesOf_decls_sublist left).append (Expr.nodesOf_decls_sublist right)).cons _
  | .unary _ _ operand => by
    rw [Expr.decls, Expr.ids]
    exact (Expr.nodesOf_decls_sublist operand).cons _
  | .assign _ _ target value => by
    rw [Expr.decls, Expr.ids, nodesOf_append]
    exact ((Expr.nodesOf_decls_sublist target).append (Expr.nodesOf_decls_sublist value)).cons _
  | .conditional _ condition yes no => by
    rw [Expr.decls, Expr.ids, nodesOf_append, nodesOf_append]
    exact ((Expr.nodesOf_decls_sublist condition).append
      ((Expr.nodesOf_decls_sublist yes).append (Expr.nodesOf_decls_sublist no))).cons _
  | .cast _ value _ => by
    rw [Expr.decls, Expr.ids]
    exact (Expr.nodesOf_decls_sublist value).cons _
  | .index _ object index => by
    rw [Expr.decls, Expr.ids, nodesOf_append]
    exact ((Expr.nodesOf_decls_sublist object).append (Expr.nodesOf_decls_sublist index)).cons _
  | .lambda _ params _ body => by
    rw [Expr.decls, Expr.ids, nodesOf_append]
    exact ((Expr.nodesOf_paramDecls_sublist params).append
      (Stmt.nodesOf_blockDecls_sublist body)).cons _
  | .await _ value => by
    rw [Expr.decls, Expr.ids]
    exact (Expr.nodesOf_decls_sublist value).cons _
  | .yield _ value => by
    rw [Expr.decls, Expr.ids]
    exact (Expr.nodesOf_optionDecls_sublist value).cons _

theorem Expr.nodesOf_optionDecls_sublist :
    ∀ o : Option Expr, (nodesOf (Expr.optionDecls o)).Sublist (Expr.optionIds o)
  | none => by
    rw [Expr.optionDecls]
    exact List.nil_sublist _
  | some e => by
    rw [Expr.optionDecls, Expr.optionIds]
    exact Expr.nodesOf_decls_sublist e

theorem Expr.nodesOf_argumentDecls_sublist :
    ∀ args : List (Argument Expr), (nodesOf (Expr.argumentDecls args)).Sublist (Expr.argumentIds args)
  | [] => by
    rw [Expr.argumentDecls]
    exact List.nil_sublist _
  | ⟨_, value⟩ :: rest => by
    rw [Expr.argumentDecls, Expr.argumentIds, Expr.argumentId, nodesOf_append]
    exact (Expr.nodesOf_decls_sublist value).append (Expr.nodesOf_argumentDecls_sublist rest)

theorem Expr.nodesOf_paramDecls_sublist :
    ∀ params : List (Param Expr), (nodesOf (Expr.paramDecls params)).Sublist (Expr.paramIds params)
  | [] => by
    rw [Expr.paramDecls]
    exact List.nil_sublist _
  | ⟨_, _, _, defaultValue, _⟩ :: rest => by
    rw [Expr.paramDecls, Expr.paramIds, Expr.paramId, nodesOf_cons, nodesOf_append]
    exact ((Expr.nodesOf_optionDecls_sublist defaultValue).append
      (Expr.nodesOf_paramDecls_sublist rest)).cons_cons _

theorem Stmt.nodesOf_decls_sublist : ∀ s : Stmt, (nodesOf s.decls).Sublist s.ids
  | .expr _ e => by
    rw [Stmt.decls, Stmt.ids]
    exact (Expr.nodesOf_decls_sublist e).cons _
  | .declare decl => by
    rw [Stmt.decls, Stmt.ids]
    exact Stmt.nodesOf_variableDecls_sublist decl
  | .block b => by
    rw [Stmt.decls, Stmt.ids]
    exact Stmt.nodesOf_blockDecls_sublist b
  | .ret _ value => by
    rw [Stmt.decls, Stmt.ids]
    exact (Expr.nodesOf_optionDecls_sublist value).cons _
  | .ifElse _ condition yes no => by
    rw [Stmt.decls, Stmt.ids, nodesOf_append, nodesOf_append]
    exact ((Expr.nodesOf_decls_sublist condition).append
      ((Stmt.nodesOf_decls_sublist yes).append (Stmt.nodesOf_optionDecls_sublist no))).cons _
  | .loop _ condition body _ => by
    rw [Stmt.decls, Stmt.ids, nodesOf_append]
    exact ((Expr.nodesOf_decls_sublist condition).append (Stmt.nodesOf_decls_sublist body)).cons _
  | .forLoop _ init condition update body => by
    rw [Stmt.decls, Stmt.ids, nodesOf_append, nodesOf_append, nodesOf_append]
    exact ((Stmt.nodesOf_optionDecls_sublist init).append
      ((Expr.nodesOf_optionDecls_sublist condition).append
        ((Expr.nodesOf_optionDecls_sublist update).append (Stmt.nodesOf_decls_sublist body)))).cons _
  | .forEach _ _ _ iterable body => by
    rw [Stmt.decls, Stmt.ids, nodesOf_append]
    exact ((Expr.nodesOf_decls_sublist iterable).append (Stmt.nodesOf_decls_sublist body)).cons _
  | .leave _ | .next _ | .importing .. | .exporting .. => by
    rw [Stmt.decls]
    exact List.nil_sublist _
  | .aliasing node _ => by
    rw [Stmt.decls, Stmt.ids]
    exact List.Sublist.refl [node.id]
  | .raise _ value | .delete _ value _ => by
    rw [Stmt.decls, Stmt.ids]
    exact (Expr.nodesOf_decls_sublist value).cons _
  | .tryCatch _ body catches => by
    rw [Stmt.decls, Stmt.ids, nodesOf_append]
    exact ((Stmt.nodesOf_blockDecls_sublist body).append
      (Stmt.nodesOf_catchDecls_sublist catches)).cons _
  | .function decl => by
    rw [Stmt.decls, Stmt.ids]
    exact Stmt.nodesOf_functionDecls_sublist decl
  | .cls decl => by
    rw [Stmt.decls, Stmt.ids]
    exact Stmt.nodesOf_classDecls_sublist decl
  | .space _ _ _ body => by
    rw [Stmt.decls, Stmt.ids, nodesOf_cons]
    exact (Stmt.nodesOf_rowDecls_sublist body).cons_cons _

theorem Stmt.nodesOf_optionDecls_sublist :
    ∀ o : Option Stmt, (nodesOf (Stmt.optionDecls o)).Sublist (Stmt.optionIds o)
  | none => by
    rw [Stmt.optionDecls]
    exact List.nil_sublist _
  | some s => by
    rw [Stmt.optionDecls, Stmt.optionIds]
    exact Stmt.nodesOf_decls_sublist s

theorem Stmt.nodesOf_rowDecls_sublist :
    ∀ row : List Stmt, (nodesOf (Stmt.rowDecls row)).Sublist (Stmt.rowIds row)
  | [] => by
    rw [Stmt.rowDecls]
    exact List.nil_sublist _
  | s :: rest => by
    rw [Stmt.rowDecls, Stmt.rowIds, nodesOf_append]
    exact (Stmt.nodesOf_decls_sublist s).append (Stmt.nodesOf_rowDecls_sublist rest)

theorem Stmt.nodesOf_blockDecls_sublist :
    ∀ b : Block Stmt, (nodesOf (Stmt.blockDecls b)).Sublist (Stmt.blockIds b)
  | ⟨_, statements⟩ => by
    rw [Stmt.blockDecls, Stmt.blockIds]
    exact (Stmt.nodesOf_rowDecls_sublist statements).cons _

theorem Stmt.nodesOf_bodyDecls_sublist :
    ∀ o : Option (Block Stmt), (nodesOf (Stmt.bodyDecls o)).Sublist (Stmt.bodyIds o)
  | none => by
    rw [Stmt.bodyDecls]
    exact List.nil_sublist _
  | some b => by
    rw [Stmt.bodyDecls, Stmt.bodyIds]
    exact Stmt.nodesOf_blockDecls_sublist b

theorem Stmt.nodesOf_variableDecls_sublist :
    ∀ d : VariableDecl Expr, (nodesOf (Stmt.variableDecls d)).Sublist (Stmt.variableIds d)
  | ⟨_, _, _, initializer, _, _, _, _⟩ => by
    rw [Stmt.variableDecls, Stmt.variableIds, nodesOf_cons]
    exact (Expr.nodesOf_optionDecls_sublist initializer).cons_cons _

theorem Stmt.nodesOf_catchDecls_sublist :
    ∀ cs : List (CatchClause Stmt), (nodesOf (Stmt.catchDecls cs)).Sublist (Stmt.catchIds cs)
  | [] => by
    rw [Stmt.catchDecls]
    exact List.nil_sublist _
  | ⟨_, _, _, body⟩ :: rest => by
    rw [Stmt.catchDecls, Stmt.catchIds, Stmt.clauseIds, nodesOf_append]
    exact ((Stmt.nodesOf_blockDecls_sublist body).cons _).append (Stmt.nodesOf_catchDecls_sublist rest)

theorem Stmt.nodesOf_functionDecls_sublist :
    ∀ d : FunctionDecl Expr Stmt, (nodesOf (Stmt.functionDecls d)).Sublist (Stmt.functionIds d)
  | ⟨_, _, _, _, params, _, _, body, _, _, _⟩ => by
    rw [Stmt.functionDecls, Stmt.functionIds, nodesOf_cons, nodesOf_append]
    exact ((Expr.nodesOf_paramDecls_sublist params).append (Stmt.nodesOf_bodyDecls_sublist body)).cons_cons _

theorem Stmt.nodesOf_fieldDecls_sublist :
    ∀ d : FieldDecl Expr, (nodesOf (Stmt.fieldDecls d)).Sublist (Stmt.fieldIds d)
  | ⟨_, _, _, initializer, _, _, _, _⟩ => by
    rw [Stmt.fieldDecls, Stmt.fieldIds, nodesOf_cons]
    exact (Expr.nodesOf_optionDecls_sublist initializer).cons_cons _

theorem Stmt.nodesOf_memberDecls_sublist :
    ∀ ms : List (Member Expr Stmt), (nodesOf (Stmt.memberDecls ms)).Sublist (Stmt.memberIds ms)
  | [] => by
    rw [Stmt.memberDecls]
    exact List.nil_sublist _
  | .field f :: rest => by
    rw [Stmt.memberDecls, Stmt.memberDecl, Stmt.memberIds, nodesOf_append]
    exact (Stmt.nodesOf_fieldDecls_sublist f).append (Stmt.nodesOf_memberDecls_sublist rest)
  | .function f :: rest => by
    rw [Stmt.memberDecls, Stmt.memberDecl, Stmt.memberIds, nodesOf_append]
    exact (Stmt.nodesOf_functionDecls_sublist f).append (Stmt.nodesOf_memberDecls_sublist rest)

theorem Stmt.nodesOf_classDecls_sublist :
    ∀ d : ClassDecl Expr Stmt, (nodesOf (Stmt.classDecls d)).Sublist (Stmt.classIds d)
  | ⟨_, _, _, _, members, _, _, _, _⟩ => by
    rw [Stmt.classDecls, Stmt.classIds, nodesOf_cons]
    exact (Stmt.nodesOf_memberDecls_sublist members).cons_cons _

end

/-- Nodes of the source each of which declares one thing only. -/
structure Fitting (ds : List Declaring) : Prop where
  written : ∀ d ∈ ds, d.node.isWritten = true
  unique : ∀ d ∈ ds, ∀ d' ∈ ds, d.node = d'.node → d = d'

theorem Root.decls_fit {r : Root} (hr : r.Distinct) : Fitting r.decls := by
  have hsublist : (nodesOf r.decls).Sublist r.ids := Stmt.nodesOf_rowDecls_sublist r.statements
  refine ⟨fun d hd => hr.2 _ (hsublist.subset (List.mem_map_of_mem hd)), fun d hd d' hd' heq => ?_⟩
  exact List.inj_on_of_nodup_map (hr.1.sublist hsublist) hd hd' heq

end SemanticAnalysis
