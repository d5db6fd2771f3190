import BlockNet.Graph.Inference
/-! # Remembered shapes

What a rule has given is remembered, and given again to a call that is the same. Settings are the
same if equal values stand under the same names, so numbers of different kinds may stand for each
other. -/

namespace BlockNet

/-- Are two calls the same? The order of the settings does not matter. -/
def RuleCall.same (c d : RuleCall) : Bool :=
  c.blockType == d.blockType && Value.equal false (.dict c.params) (.dict d.params)
    && c.base == d.base

/-- Can the result of a call be remembered? A list or a dict among the settings forbids it. -/
def RuleCall.memorable (c : RuleCall) : Bool := Value.allHashable (c.params.map (·.2))

/-- Calls and their results, the last used first. -/
structure RuleMemo where
  known : List (RuleCall × TensorShape)

namespace RuleMemo

/-- Nothing remembered. -/
def empty : RuleMemo := ⟨[]⟩

/-- How many results are remembered at most. -/
def capacity : Nat := 1024

/-- The result remembered for a call. -/
def get? (m : RuleMemo) (c : RuleCall) : Option TensorShape :=
  (m.known.find? fun e => e.1.same c).map (·.2)

/-- The memo with a result in front. -/
def insert (m : RuleMemo) (c : RuleCall) (s : TensorShape) : RuleMemo :=
  ⟨((c, s) :: m.known.filter fun e => !e.1.same c).take capacity⟩

/-- The result of a call, remembered if there is one to remember. -/
def apply (m : RuleMemo) (c : RuleCall) : RuleMemo × Outcome TensorShape :=
  if !c.memorable then (m, c.shape)
  else
    match m.get? c with
    | some s => (m.insert c s, .ok s)
    | none =>
        match c.shape with
        | .ok s => (m.insert c s, .ok s)
        | .error fault => (m, .error fault)

/-- The results of calls one after the other. -/
def applyAll (m : RuleMemo) : List RuleCall → RuleMemo × List (Outcome TensorShape)
  | [] => (m, [])
  | c :: rest =>
      let (m, s) := m.apply c
      let (m, shapes) := applyAll m rest
      (m, s :: shapes)

end RuleMemo

end BlockNet
