import SemanticAnalysis.Proofs.Faithful.Programs

/-!
# Accepted bitfields fit

Behind a session that has met no error, every bitfield fits into its underlying type, however many members it has
and however wide they are; conversely a bitfield that fits is not refused (`accepted_bitfields_fit`).

An error counts also if it was given up: a call that has another candidate drops the error of an instance that it
cannot have, and the bitfield that this instance named stays as it is (`dropped_bitfield_overflows`).
-/

namespace SemanticAnalysis

/-! ## Sessions without errors -/

namespace Session

/-- The states in which a session waits for a request when it has met no error: it stopped at none, it collected
none, and it gave none up. -/
inductive Clears (session : Session) : State → Prop where
  | start : session.Clears session.start
  | next {s s' : State} (r : Request) (hs : session.Clears s) (hrun : r.run s = .ok ⟨⟩ s') (herrors : s'.errors = [])
      (hdropped : s'.dropped = []) : session.Clears s'

variable {session : Session} {s : State} {c : ItemId}

theorem Clears.noted_eq (hs : session.Clears s) : s.noted = 0 := by
  cases hs with
  | start => rfl
  | next r _ _ herrors hdropped => rw [State.noted, herrors, hdropped]; rfl

theorem Clears.grounded (h : session.attributes.Honest) (hs : session.Clears s) : s.Grounded := by
  induction hs with
  | start => exact grounded_start h
  | next r _ hrun _ _ ih =>
    have hnext := r.grounded_next ih
    rwa [Request.next, hrun] at hnext

/-- What has its fields fits if it is a bitfield. -/
theorem Clears.fitsAt (h : session.attributes.Honest) (hs : session.Clears s) (hc : s.IsHeaded c) : s.FitsAt c := by
  induction hs with
  | start =>
    obtain ⟨source, hsource, -⟩ := hc
    cases hsource
  | @next s s' r hs hrun herrors hdropped ih =>
    have hgrounded := hs.grounded h
    have hclean : session.Clears s' := .next r hs hrun herrors hdropped
    by_cases hr : r = .errors
    · -- taking the errors leaves everything else alone
      subst hr
      cases hrun
      exact ih hc
    · rw [Request.run_eq] at hrun
      have hfaithful := Request.runWith_faithful (analyst_faithful s.options.nesting) hr
      have hhonours := hfaithful.honours_ok hgrounded hrun
      by_cases hbefore : s.IsHeaded c
      · exact (ih hbefore).mono (hgrounded.lt_of_isHeaded hbefore) hbefore hhonours
      · exact hfaithful.vouched s _ s' hgrounded hrun (hclean.noted_eq.trans hs.noted_eq.symm) c hc hbefore

end Session

/-! ## The check -/

/-- A bitfield passes its check exactly if the sum of the widths is at most the capacity. Else it overflows, and
there is no other reason. -/
theorem bitfield_passes_iff {an : Analyst} (han : an.Faithful) {s s' : State} (hs : s.Grounded) {item : ItemId}
    {decl : ClassDef} {frame : Frame} {scope : ScopeId} {bits : Nat}
    (hsource : s.classes.lookup item = some ⟨decl, frame, .declared⟩) (hbitfield : decl.flags.bitfield = true)
    (hlaid : Analysis.layOut an frame decl item s = .ok (scope, bits) s') : ∃ cls ty,
      s'.table.class? item = some cls ∧ cls.underlying = some ty ∧
        (Analysis.checkCapacity decl item bits s' = .ok ⟨⟩ s' ↔
          (cls.members.map s'.table.bitsOf).sum ≤ ty.bitCapacity) ∧
        ((∃ e, Analysis.checkCapacity decl item bits s' = .error e s') ↔
          ty.bitCapacity < (cls.members.map s'.table.bitsOf).sum) := by
  obtain ⟨_, hunderlying, hheads⟩ := (Analysis.layOut_heads han hs hsource (by decide) s (.refl s) rfl).2 _ _ hlaid
  obtain ⟨ty, rfl, -⟩ := hunderlying hbitfield
  obtain ⟨cls, hcls, -, hty, hmeasures⟩ := hheads.fields
  refine ⟨cls, ty, hcls, hty, ?_⟩
  rw [← hmeasures.lt_iff, ← Nat.not_lt, ← hmeasures.lt_iff]
  rcases Analysis.checkCapacity_eq decl hcls hty with ⟨hpassed, hcheck⟩ | ⟨hover, hcheck⟩
  · rw [hcheck]
    exact ⟨⟨fun _ => hpassed, fun _ => rfl⟩, nofun, fun hover => absurd hover hpassed⟩
  · rw [hcheck]
    exact ⟨⟨nofun, fun hpassed => absurd hover hpassed⟩, fun _ => hover, fun _ => ⟨_, rfl⟩⟩

/-! ## What is accepted -/

/-- What of a bitfield has its fields fits. -/
theorem Session.Clears.fits {session : Session} (hattributes : session.attributes.Honest) {s : State}
    (hs : session.Clears s) {c : ItemId} {source : ClassSource} (hsource : s.classes.lookup c = some source)
    (hbitfield : source.decl.flags.bitfield = true) : ∃ cls, s.table.class? c = some cls ∧
      (s.table.Fits cls ∨ source.stage = .declared ∧ cls.underlying = none ∧ cls.members = []) := by
  obtain ⟨cls, hcls, hflag, hblank⟩ := (hs.grounded hattributes).sources c source hsource
  refine ⟨cls, hcls, ?_⟩
  by_cases hheaded : Stage.signatures.rank ≤ source.stage.rank
  · exact .inl (hs.fitsAt hattributes ⟨source, hsource, hheaded⟩ cls hcls (hflag.trans hbitfield))
  · have hlow := Nat.not_le.1 hheaded
    have hstage : source.stage = .declared := by
      cases hstage : source.stage with
      | declared => rfl
      | _ => exact absurd hlow (by rw [hstage]; decide)
    exact .inr ⟨hstage, congrArg Prod.fst (hblank hlow), congrArg Prod.snd (hblank hlow)⟩

/-- **Accepted bitfields fit.** Behind a session that has met no error, all members of a bitfield, written or made
for an instance, are entries with a width, its underlying type is a number or truth value that is no reference and
no pointer, and the widths add up to at most its capacity. Only a bitfield that nobody has asked for its fields has
none yet. Conversely a bitfield that fits is not refused: wherever one gets its fields, it passes the check exactly
if the widths add up to at most the capacity, and else it overflows. Callbacks must leave alone what is settled, as
those do that leave the table alone. -/
theorem accepted_bitfields_fit {session : Session} (hattributes : session.attributes.Honest) {s : State}
    (hs : session.Clears s) :
    (∀ c source, s.classes.lookup c = some source → source.decl.flags.bitfield = true → ∃ cls,
      s.table.class? c = some cls ∧
        (s.table.Fits cls ∨ source.stage = .declared ∧ cls.underlying = none ∧ cls.members = [])) ∧
    ∀ (depth : Nat) (t t' : State) (c : ItemId) (decl : ClassDef) (frame : Frame) (scope : ScopeId) (bits : Nat),
      t.Grounded → t.classes.lookup c = some ⟨decl, frame, .declared⟩ → decl.flags.bitfield = true →
      Analysis.layOut (analyst depth) frame decl c t = .ok (scope, bits) t' → ∃ cls ty,
        t'.table.class? c = some cls ∧ cls.underlying = some ty ∧
          (Analysis.checkCapacity decl c bits t' = .ok ⟨⟩ t' ↔
            (cls.members.map t'.table.bitsOf).sum ≤ ty.bitCapacity) ∧
          ((∃ e, Analysis.checkCapacity decl c bits t' = .error e t') ↔
            ty.bitCapacity < (cls.members.map t'.table.bitsOf).sum) :=
  ⟨fun _ _ hsource hbitfield => hs.fits hattributes hsource hbitfield,
    fun depth _ _ _ _ _ _ _ ht hsource hbitfield hlaid =>
      bitfield_passes_iff (analyst_faithful depth) ht hsource hbitfield hlaid⟩

/-- A bitfield `B` over a `byte` with fields of these widths. -/
def byteBitfield (generics : List Ident) (ty : TypeExpr) (fields : List (String × Nat)) : ClassDef :=
  { node := ⟨.written 1, {}⟩, name := ⟨"B", {}⟩, generics, flags := { bitfield := true }
    underlying := some { form := .native .byte }
    members := fields.zipIdx.map fun ((name, bits), index) =>
      .field { node := ⟨.written (10 + index), {}⟩, name := ⟨name, {}⟩, ty := some ty, bits := some bits } }

/-- A module that is nothing but a bitfield with an entry of three bits and one of five. -/
def fullByteRequest : Request :=
  .tree { statements := [.cls (byteBitfield [] { form := .native .int } [("a", 3), ("b", 5)])] }
    Session.rootName Session.rootPath ""

/-- The two entries are there and fill the byte. -/
theorem accepted_bitfields_fit_byte :
    let s := fullByteRequest.next ({} : Session).start
    ∃ cls, s.table.class? ⟨0⟩ = some cls ∧ cls.members.map s.table.bitsOf = [3, 5] ∧ s.table.Fits cls := by
  intro s
  have hruns : Analysis.passes (fun _ s' => s'.errors.isEmpty && s'.dropped.isEmpty)
      (fullByteRequest.run ({} : Session).start) = true := by decide +kernel
  obtain ⟨u, s', hrun, hclear⟩ := Analysis.passes_iff.1 hruns
  simp only [Bool.and_eq_true, List.isEmpty_iff] at hclear
  have hbehind : s = s' := by
    show fullByteRequest.next ({} : Session).start = s'
    rw [Request.next, hrun]
  have hs : ({} : Session).Clears s := by
    rw [hbehind]
    exact .next fullByteRequest .start hrun hclear.1 hclear.2
  have hdeclared : (s.classes.lookup ⟨0⟩).any (·.decl.flags.bitfield) = true := by decide +kernel
  obtain ⟨source, hsource, hbitfield⟩ := (Option.any_eq_true _ _).1 hdeclared
  obtain ⟨cls, hcls, hfits⟩ := (accepted_bitfields_fit Session.honest_default hs).1 ⟨0⟩ source hsource hbitfield
  have hbits : (s.table.class? ⟨0⟩).all (fun cls => cls.members.map s.table.bitsOf == [3, 5]) = true := by
    decide +kernel
  rw [hcls, Option.all_some, beq_iff_eq] at hbits
  refine ⟨cls, hcls, hbits, hfits.resolve_right fun hearly => ?_⟩
  rw [hearly.2.2] at hbits
  cases hbits

/-- A function `name` with an empty body. -/
def emptyFunction (node : Nat) (name : String) (generics : List Ident) (params : List (String × TypeExpr)) :
    FunctionDef :=
  { node := ⟨.written node, {}⟩, name := ⟨name, {}⟩, generics
    params := params.zipIdx.map fun ((param, ty), index) =>
      { node := ⟨.written (node + 2 + index), {}⟩, name := ⟨param, {}⟩, ty }
    body := some ⟨⟨.written (node + 1), {}⟩, []⟩ }

/-- A generic bitfield `B<T>` of 20 bits over a `byte`, and the functions `g<T>(x: T, b: B<T>*)` and
`g(x: int, y: int)`. -/
def droppedBitfieldRoot : Root :=
  let t : TypeExpr := { form := .named [⟨"T", {}⟩] [] }
  let int : TypeExpr := { form := .native .int }
  { statements :=
      [.cls (byteBitfield [⟨"T", {}⟩] t [("a", 20)]),
       .function (emptyFunction 20 "g" [⟨"T", {}⟩]
        [("x", t), ("b", TypeExpr.pointer { form := .named [⟨"B", {}⟩] [t] })]),
       .function (emptyFunction 30 "g" [] [("x", int), ("y", int)])] }

/-- The candidates of a call `g(1, 2)` behind this module. -/
def candidatesOfCall : EStateM.Result Diagnostic State (List Candidate) :=
  let literal (node : Nat) (value : Int) : Argument Expr := { value := .literal ⟨.written node, {}⟩ (.int value) }
  let s := (({} : Session).analyseTree droppedBitfieldRoot).state
  Analysis.callCandidates (analyst s.options.nesting) (s.table.findAll "g" ⟨0⟩ [] none)
    [literal 40 1, literal 41 2] [.typed .int, .typed .int] {} s

/-- For the first `g` the call makes `B<int>`, which overflows. The call has a second candidate and goes on without
an error, next to a bitfield that does not fit. -/
theorem dropped_bitfield_overflows : ∃ candidates s, candidatesOfCall = .ok candidates s ∧ candidates.length = 1 ∧
    s.errors = [] ∧ ∃ cls ty, s.table.class? ⟨8⟩ = some cls ∧ cls.flags.bitfield = true ∧
      cls.underlying = some ty ∧ ty.bitCapacity < (cls.members.map s.table.bitsOf).sum := by
  have hruns : Analysis.passes (fun candidates s => candidates.length == 1 && s.errors.isEmpty &&
      (s.table.class? ⟨8⟩).any fun cls => cls.flags.bitfield &&
        cls.underlying.any (·.bitCapacity < (cls.members.map s.table.bitsOf).sum))
      candidatesOfCall = true := by decide +kernel
  obtain ⟨candidates, s, hcandidates, htest⟩ := Analysis.passes_iff.1 hruns
  simp only [Bool.and_eq_true, beq_iff_eq, List.isEmpty_iff, Option.any_eq_true, decide_eq_true_eq] at htest
  obtain ⟨⟨hlength, herrors⟩, cls, hcls, hflag, ty, hty, hover⟩ := htest
  exact ⟨candidates, s, hcandidates, hlength, herrors, cls, ty, hcls, hflag, hty, hover⟩

end SemanticAnalysis
