import SemanticAnalysis.Proofs.Analysis.Acyclic
import SemanticAnalysis.Proofs.Course.Programs

/-!
# What requests do

A request follows a course, or it analyses code in a module that is there, which is entered first and left at the
end (`Request.handles`). So what courses keep is kept by whole sessions (`Session.after`), one request at a time.
-/

namespace SemanticAnalysis

open Analysis (behind)

/-! ## One request -/

namespace State

/-- What a request can do to a state. -/
inductive Handles (s : State) : State → Prop where
  | course {s' : State} (h : Course s s') : Handles s s'
  /-- The code is for a module that is not there. -/
  | missing (m : ModuleId) : Handles s (s.within m)
  | failed {m : ModuleId} {s' : State} (h : Course (s.within m) s') : Handles s s'.left
  | ended {m : ModuleId} {s' s'' : State} {root : AnalysedRoot} (h : Course (s.within m) s')
      (hleft : s'.left.Ordinary s'') : Handles s (s''.filed root)

namespace Handles

variable {s s' : State}

theorem attributes_eq (h : s.Handles s') : s'.attributes = s.attributes := by
  cases h with
  | course h => exact h.attributes_eq
  | missing m => rfl
  | failed h => exact h.attributes_eq
  | ended h hleft => exact hleft.attributes.trans h.attributes_eq

theorem proper (h : s.Handles s') (hs : s.Proper) : s'.Proper := by
  cases h with
  | course h => exact h.proper hs
  | missing m => exact hs.within m
  | failed h => exact (h.proper (hs.within _)).left
  | ended h hleft => exact ((Course.ordinary hleft).proper (h.proper (hs.within _)).left).filed _

theorem conserves (h : s.Handles s') (hd : s.attributes.Loyal) : s.table.Conserves s'.table := by
  cases h with
  | course h => exact h.conserves hd
  | missing m => exact .refl _
  | failed h => exact h.conserves hd
  | @ended _ within' _ _ h hleft =>
    have hattributes : within'.left.attributes = s.attributes := h.attributes_eq
    exact (h.conserves hd).trans (hleft.conserves (hattributes ▸ hd))

end Handles

end State

namespace Request

theorem behind_discard {α : Type} (x : Analysis α) (s : State) : behind (discard x) s = behind x s := by
  show behind (EStateM.map _ x) s = _
  unfold behind EStateM.map
  cases x s <;> rfl

/-- **One request.** -/
theorem handles {s : State} (hs : s.Proper) (r : Request) : s.Handles (r.next s) := by
  have han := analyst_orderly s.options.nesting
  have hnext : r.next s = behind (r.runWith (analyst s.options.nesting)) s := by
    rw [next, behind, run_eq]
    cases runWith (analyst s.options.nesting) r s <;> rfl
  rw [hnext]
  cases r with
  | tree root name path package =>
    rw [runWith, behind_discard]
    exact .course (Analysis.detailRoot_orderly han s hs (.refl s))
  | body root module =>
    rw [runWith, behind_discard, behind]
    have hvisits := Analysis.detailModule_visits han hs module root
    generalize Analysis.detailModule (analyst s.options.nesting) root module s = result at hvisits ⊢
    cases hvisits with
    | missing _ => exact .missing module
    | fails hcourse => exact .failed hcourse
    | ends hcourse hleft => exact .ended hcourse hleft
  | load path =>
    rw [runWith, behind_discard]
    exact .course (Analysis.loadModule_orderly han s hs (.refl s))
  | classInstance template arguments position =>
    rw [runWith, behind_discard]
    exact .course (Analysis.instantiateClass_orderly han s hs (.refl s))
  | functionInstance template arguments position =>
    rw [runWith, behind_discard]
    exact .course (Analysis.instantiateFunction_orderly han s hs (.refl s))
  | errors => exact .course (.ordinary { State.Ordinary.refl s with })

end Request

/-! ## Sessions -/

namespace Session

variable {session : Session}

/-- The state behind some requests. -/
def after (session : Session) (requests : List Request) : State :=
  requests.foldl (fun s r => r.next s) session.start

theorem after_concat (session : Session) (requests : List Request) (r : Request) :
    session.after (requests ++ [r]) = r.next (session.after requests) := by
  rw [after, List.foldl_append, after, List.foldl_cons, List.foldl_nil]

/-- What the first state has and requests keep is there behind all requests. -/
theorem after_induction {P : State → Prop} (hgrowing : session.attributes.Growing) (hstart : P session.start)
    (hstep : ∀ s s', s.attributes = session.attributes → s.Proper → s.Handles s' → P s → P s')
    (requests : List Request) : P (session.after requests) := by
  suffices h : (session.after requests).attributes = session.attributes ∧ (session.after requests).Proper ∧
      P (session.after requests) from h.2.2
  induction requests using List.reverseRecOn with
  | nil => exact ⟨rfl, proper_start hgrowing, hstart⟩
  | append_singleton earlier r ih =>
    obtain ⟨hattributes, hproper, hP⟩ := ih
    have hhandles := r.handles hproper
    rw [after_concat]
    exact ⟨hhandles.attributes_eq.trans hattributes, hhandles.proper hproper,
      hstep _ _ hattributes hproper hhandles hP⟩

end Session

end SemanticAnalysis
