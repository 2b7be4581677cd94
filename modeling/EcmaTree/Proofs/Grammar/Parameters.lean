import EcmaTree.Grammar.Parameters
import EcmaTree.Proofs.Grammar.Binding

/-!
# Parameters

The nodes of a list of parameters are its parameters; what else it keeps for later is tokens and names.
-/

namespace EcmaTree

namespace Parameters

instance : HasNodes Parameters := ⟨fun ps => ps.params⟩

@[simp] theorem nodes_eq (ps : Parameters) : nodes ps = ps.params := rfl

@[simp] theorem bind_params (strict : Bool) (ps : Parameters) (offender : Offender) (name : String) :
    (ps.bind strict offender name).params = ps.params := by
  unfold bind
  split <;> repeat' split
  all_goals rfl

@[simp] theorem add_params (ps : Parameters) (param : Node) : (ps.add param).params = ps.params ++ [param] := rfl

theorem foldl_bind_params {β : Type} (strict : Bool) (offender : β → Offender) (name : β → String) (bound : List β)
    (ps : Parameters) :
    (bound.foldl (fun ps b => ps.bind strict (offender b) (name b)) ps).params = ps.params := by
  induction bound generalizing ps with
  | nil => rfl
  | cons b bound ih => rw [List.foldl_cons, ih, bind_params]

/-- The parameters of an arrow function are the nodes that were read. -/
theorem ofNodes_params (strict : Bool) (params : List Node) : (ofNodes strict params).params = params := by
  have grow (ps : Parameters) : (params.foldl (fun ps param =>
      (param.boundNames.foldl (fun ps name => ps.bind strict .binding name) ps).add param) ps).params =
        ps.params ++ params := by
    induction params generalizing ps with
    | nil => simp
    | cons param params ih =>
      rw [List.foldl_cons, ih, add_params, foldl_bind_params strict (fun _ => .binding) (fun name => name)]
      simp
  exact grow {}

end Parameters

namespace Judgement.Settles

open Parse

variable {J : Judgement}

theorem failOffender (cause : Option Cause) (offender : Option Offender) :
    J.Settles (failOffender cause offender) := by
  unfold Parse.failOffender
  split
  · exact .get (fun _ => rfl) fun _ => .fail _
  · exact .pure _

end Judgement.Settles

namespace Contract

open Parse

variable {K : Contract} {nested : Nested}

/-! ## Parameters in parentheses -/

section
variable (hn : K.Sound nested)
include hn

/-- Behind a parameter, the list holds it besides those before. -/
theorem parameter_held {ps : Parameters} {base s : ParseState} {r : Bool}
    (h : K.Held .ahead r base ps.params s) :
    K.Ensures (parameter nested ps) s fun ps t => K.Held .ahead true base ps.params t := by
  refine .check (.ite (fun _ => ?_) fun _ => ?_)
  · refine h.read (finalRest_reads hn _ _) fun (param, names) t h => .isStrict (h.give ?_)
    simp [Parameters.foldl_bind_params, or_comm]
  · refine h.read (patternWithDefault_reads hn _) fun (param, names) t h => .isStrict (h.give ?_)
    simp [Parameters.foldl_bind_params, or_comm]

theorem parameterList_held {first : Parameters} {base s : ParseState} (h : K.Held .ahead true base first.params s) :
    K.Ensures (parameterList nested first) s fun ps t => K.Held .ahead true base ps.params t := by
  refine .check (.ite (fun _ => h.give (by simp)) fun _ => ?_)
  rw [← bind_pure (loop first _)]
  refine h.loop (l := []) (by simp) (fun ps u h => ?_) fun ps u h => h.give (by simp)
  refine .ahead (.ite (fun _ => h.give (by simp)) fun _ => ?_)
  refine Judgement.bind (parameter_held hn (h.mono (by simp))) fun ps v h => ?_
  refine .check (.ite (fun _ => h.give (by simp)) fun _ => h.expect fun w h => ?_)
  exact .check (.ite (fun _ => h.give (by simp)) fun _ => h.give (by simp))

theorem parameters_reads (restricted : Option Token) : K.Reads (parameters nested restricted) := by
  intro s hs
  refine (K.start hs).expect fun t h => Judgement.bind (parameterList_held hn h) fun ps u h => ?_
  exact h.expect fun v h => .context (h.settleIf (.failHere _) fun w h => h.give (by simp))

end

/-! ## Parameters of an arrow function -/

theorem arrowParameter_firm {base s : ParseState} {isAsync : Bool} {param : Node} (h : K.Firm base param s) :
    K.Ensures (arrowParameter isAsync param) s fun n t => s = t ∧ K.Firm base n t := by
  unfold arrowParameter
  split
  next left right hkind =>
    split
    · exact .failAhead
    next d hright => exact K.ofPure ⟨rfl, K.firm_yield h hkind hright⟩
    · exact K.ofPure ⟨rfl, h⟩
  · exact .ite (fun _ => .failAhead) fun _ => K.ofPure ⟨rfl, h⟩

theorem mapM_arrowParameter_firm {base s : ParseState} {isAsync : Bool} :
    ∀ {params : List Node}, (∀ n ∈ params, K.Firm base n s) →
      K.Ensures (params.mapM (arrowParameter isAsync)) s fun ns t => s = t ∧ ∀ n ∈ ns, K.Firm base n t
  | [], _ => by
    rw [List.mapM_nil]
    exact K.ofPure ⟨rfl, by simp⟩
  | param :: params, h => by
    rw [List.mapM_cons]
    refine Judgement.bind (arrowParameter_firm (h param (by simp))) ?_
    rintro n _ ⟨rfl, hn⟩
    refine Judgement.bind (mapM_arrowParameter_firm fun n hn => h n (by simp [hn])) ?_
    rintro ns _ ⟨rfl, hns⟩
    exact K.ofPure ⟨rfl, List.forall_mem_cons.2 ⟨hn, hns⟩⟩

/-- What the list before an arrow may be: a good node, or a placeholder whose parameters are firm. -/
def BeforeArrow (K : Contract) (base : ParseState) (list : Node) (s : ParseState) : Prop :=
  K.Good base list s ∨ ∃ params async, list.kind = .arrowParameters params async ∧ ∀ n ∈ params, K.Firm base n s

theorem BeforeArrow.firm {base s : ParseState} {list : Node} {params : List Node} {async : Bool}
    (h : K.BeforeArrow base list s) (hlist : list.kind = .arrowParameters params async) :
    ∀ n ∈ params, K.Firm base n s := by
  obtain h | ⟨_, _, hlist', h⟩ := h
  · exact K.firm_parameter h hlist
  · rw [hlist] at hlist'
    cases hlist'
    exact h

theorem arrowNodes_firm {base s : ParseState} {list : Node} (h : K.BeforeArrow base list s) :
    K.Ensures (arrowNodes list) s fun ns t => s = t ∧ ∀ n ∈ ns, K.Firm base n t := by
  unfold arrowNodes
  split
  next params _ hlist => exact K.ofPure ⟨rfl, h.firm hlist⟩
  next name hlist =>
    obtain h | ⟨_, _, hlist', _⟩ := h
    · exact K.ofPure ⟨rfl, by
        simpa using K.firm_of_identifier h (by simp [Node.isIdentifier, Node.identifierName?, hlist])⟩
    · simp [hlist] at hlist'
  · exact .failAhead

theorem arrowParameters_firm {base s : ParseState} {list : Node} {isAsync : Bool}
    (h : K.BeforeArrow base list s) :
    K.Ensures (arrowParameters list isAsync) s fun ps t => s = t ∧ ∀ n ∈ ps.params, K.Firm base n t := by
  refine Judgement.bind (arrowNodes_firm h) ?_
  rintro ns _ ⟨rfl, hns⟩
  refine Judgement.bind (mapM_arrowParameter_firm hns) ?_
  rintro ns _ ⟨rfl, hns⟩
  refine .context (.ite (fun _ => Judgement.bind .failAhead fun _ _ h => h) fun _ => ?_)
  refine .ite (fun _ => Judgement.bind .failHere fun _ _ h => h) fun _ => K.ofPure ⟨rfl, ?_⟩
  rwa [Parameters.ofNodes_params]

end Contract

end EcmaTree
