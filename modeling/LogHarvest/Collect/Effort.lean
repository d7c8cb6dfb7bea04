import LogHarvest.Collect.Collector

/-!
# The effort that is left

Every answer brings a collector nearer to its end.  The effort that is left is
compared part by part: listings first, because a listing can lead to any number of
commands, then commands, then the steps within one command.

`exhaust` repeats a step for as long as the effort gets smaller, so it ends
whatever the step does.
-/

namespace LogHarvest

structure Effort where
  listings : Nat
  commands : Nat
  steps : Nat
deriving DecidableEq, Repr

namespace Effort

def zero : Effort := ⟨0, 0, 0⟩

def ofSteps (n : Nat) : Effort := ⟨0, 0, n⟩

instance : Add Effort where
  add a b := ⟨a.listings + b.listings, a.commands + b.commands, a.steps + b.steps⟩

def sum (efforts : List Effort) : Effort :=
  efforts.foldl (· + ·) zero

def Less (a b : Effort) : Prop :=
  a.listings < b.listings ∨ a.listings = b.listings ∧
    (a.commands < b.commands ∨ a.commands = b.commands ∧ a.steps < b.steps)

instance (a b : Effort) : Decidable (Less a b) := by
  unfold Less
  infer_instance

theorem wellFounded_less : WellFounded Less := by
  have lexicographic :=
    (Prod.lex ⟨fun a b : Nat => a < b, Nat.lt_wfRel.wf⟩
      (Prod.lex ⟨fun a b : Nat => a < b, Nat.lt_wfRel.wf⟩
        ⟨fun a b : Nat => a < b, Nat.lt_wfRel.wf⟩)).wf
  refine Subrelation.wf ?_ (InvImage.wf (fun e => (e.listings, e.commands, e.steps)) lexicographic)
  intro a b less
  rcases less with less | ⟨same, less | ⟨same', less⟩⟩
  · exact Prod.Lex.left _ _ less
  · simp only [InvImage, same]
    exact Prod.Lex.right _ (Prod.Lex.left _ _ less)
  · simp only [InvImage, same, same']
    exact Prod.Lex.right _ (Prod.Lex.right _ less)

instance : WellFoundedRelation Effort := ⟨Less, wellFounded_less⟩

end Effort

/-- Repeats a step until it cannot be taken or does not make the effort smaller. -/
def exhaust {σ : Type} (effort : σ → Effort) (step : σ → Option σ) (s : σ) : σ :=
  match step s with
  | none => s
  | some s' => if Effort.Less (effort s') (effort s) then exhaust effort step s' else s
termination_by effort s
decreasing_by assumption

/-!
## Collectors
-/

def Errand.effort : Errand → Effort
  | .keep _ => ⟨0, 1, 0⟩
  | .explore _ => ⟨1, 0, 0⟩

def Errand.effortOf (errands : List Errand) : Effort :=
  Effort.sum (errands.map effort)

/--
The effort that is left to a collector.  Two phases in a row are three steps apart,
which leaves room for waiting between them.
-/
def Collector.effort (c : Collector) : Effort :=
  match c.phase with
  | .entering => Errand.effortOf (Errand.ofStages c.stages) + .ofSteps 21
  | .connecting => Errand.effortOf (Errand.ofStages c.stages) + .ofSteps 18
  | .between errand rest _ => Errand.effortOf (errand :: rest) + .ofSteps 15
  | .running errand rest _ => Errand.effortOf (errand :: rest) + .ofSteps 12
  | .saving _ _ rest _ => Errand.effortOf rest + ⟨0, 1, 9⟩
  | .closing _ => .ofSteps 6
  | .finished _ => .ofSteps 3

end LogHarvest
